import Recompiler.Proofs.Cache.Spans

/-! Registering blocks. A descriptor without a block becomes a block of a monitor; its bytes are counted later. -/

namespace Recompiler

/-- A check that was passed. -/
theorem passed {ε α : Type} {p : Prop} [Decidable p] {e : ε} {x : Except ε α} {a : α}
    (h : (if p then .error e else x) = .ok a) : ¬p ∧ x = .ok a := by
  split at h
  · cases h
  · rename_i hp
    exact ⟨hp, h⟩

/-- What settings that pass the check are like, as far as the structure of the cache depends on them. -/
theorem Settings.Valid.facts {s : Settings} (h : s.Valid) :
    s.blockCount ≠ 0 ∧ 0 < s.overwriteThreshold ∧ s.hashShift < pageShift := by
  unfold Valid check at h
  obtain ⟨-, h⟩ := passed h
  obtain ⟨-, h⟩ := passed h
  obtain ⟨hcount, h⟩ := passed h
  obtain ⟨-, h⟩ := passed h
  obtain ⟨-, h⟩ := passed h
  obtain ⟨-, h⟩ := passed h
  obtain ⟨-, h⟩ := passed h
  obtain ⟨hthreshold, h⟩ := passed h
  obtain ⟨-, h⟩ := passed h
  obtain ⟨hshift, -⟩ := passed h
  exact ⟨hcount, Nat.pos_of_ne_zero hthreshold, Nat.lt_of_not_le hshift⟩

/-- What settings that pass the check are like, as far as the arena depends on them. -/
theorem Settings.Valid.sizes {s : Settings} (h : s.Valid) :
    0 < s.maxBlockSize ∧ 0 < s.align ∧ 2 * s.maxBlockSize ≤ s.cacheSize := by
  unfold Valid check at h
  obtain ⟨hblock, h⟩ := passed h
  obtain ⟨halign, h⟩ := passed h
  obtain ⟨-, h⟩ := passed h
  obtain ⟨-, h⟩ := passed h
  obtain ⟨-, h⟩ := passed h
  obtain ⟨-, h⟩ := passed h
  obtain ⟨-, h⟩ := passed h
  obtain ⟨-, h⟩ := passed h
  obtain ⟨hcache, -⟩ := passed h
  simp only [isPowerOfTwo, Bool.not_eq_true', decide_eq_false_iff_not, not_not] at hblock halign
  exact ⟨Nat.pos_of_ne_zero hblock.1, Nat.pos_of_ne_zero halign.1, Nat.le_of_not_lt hcache⟩

/-- The alignment is a power of two. -/
theorem Settings.Valid.align_eq {s : Settings} (h : s.Valid) : ∃ n, s.align = 2 ^ n := by
  unfold Valid check at h
  obtain ⟨-, h⟩ := passed h
  obtain ⟨halign, -⟩ := passed h
  simp only [isPowerOfTwo, Bool.not_eq_true', decide_eq_false_iff_not, not_not, Nat.one_shiftLeft] at halign
  exact ⟨_, halign.2.symm⟩

/-- There is always a second page to take a monitor from. -/
theorem Settings.Valid.two_le_codePages {s : Settings} (h : s.Valid) : 2 ≤ s.codePages := by
  unfold Valid check at h
  obtain ⟨-, h⟩ := passed h
  obtain ⟨-, h⟩ := passed h
  obtain ⟨-, h⟩ := passed h
  obtain ⟨-, h⟩ := passed h
  obtain ⟨-, h⟩ := passed h
  obtain ⟨-, h⟩ := passed h
  obtain ⟨-, h⟩ := passed h
  obtain ⟨-, h⟩ := passed h
  obtain ⟨-, h⟩ := passed h
  obtain ⟨-, h⟩ := passed h
  exact Nat.le_of_not_lt (passed h).1

namespace Cache

variable {c c' : Cache} {m n k : MonitorId} {id x o : BlockId} {bucket : Nat} {E : Finset BlockId}

/-! ### Entering a block in its monitor -/

theorem block_enlist (hid : id < c.blocks.size) (m : MonitorId) (bucket : Nat) (x : BlockId) :
    (c.enlist m id bucket).block x = if x = id then { c.block x with owner := some m, bucket := bucket } else c.block x := by
  unfold enlist
  by_cases hx : x = id
  · subst hx
    rw [block_modifyBlock_self (by simpa using hid), block_modifyMonitor, if_pos rfl]
  · rw [block_modifyBlock_ne _ hx, block_modifyMonitor, if_neg hx]

theorem monitor_enlist (hm : m < c.monitors.size) (n : MonitorId) :
    (c.enlist m id bucket).monitor n =
      if n = m then
        { c.monitor n with
          activeBlocks := (c.monitor n).activeBlocks + 1, buckets := (c.monitor n).buckets.modify bucket (id :: ·) }
      else c.monitor n := by
  unfold enlist
  rw [monitor_modifyBlock]
  by_cases hn : n = m
  · subst hn
    rw [monitor_modifyMonitor_self hm, if_pos rfl]
  · rw [monitor_modifyMonitor_ne _ hn, if_neg hn]

theorem core_monitor_enlist (c : Cache) (m : MonitorId) (id : BlockId) (bucket : Nat) (n : MonitorId) :
    ((c.enlist m id bucket).monitor n).core = (c.monitor n).core :=
  map_monitor_modifyMonitor c m n fun _ => rfl

theorem bucket_enlist (hm : m < c.monitors.size) (hbucket : bucket < (c.monitor m).buckets.size) (n : MonitorId) (i : Nat) :
    ((c.enlist m id bucket).monitor n).bucket i =
      if n = m ∧ i = bucket then id :: (c.monitor n).bucket i else (c.monitor n).bucket i := by
  rw [monitor_enlist hm]
  by_cases hn : n = m
  · subst hn
    rw [if_pos rfl, Monitor.bucket, Monitor.bucket, Array.getD_eq_getD_getElem?, Array.getD_eq_getD_getElem?,
      Array.getElem?_modify]
    by_cases hi : bucket = i
    · subst hi
      rw [if_pos rfl, if_pos ⟨rfl, rfl⟩, Array.getElem?_eq_getElem hbucket]
      rfl
    · rw [if_neg hi, if_neg fun h => hi h.2.symm]
  · rw [if_neg hn, if_neg fun h => hn h.1]

/-- A descriptor that can become a block of a monitor. -/
structure Enlistable (c : Cache) (m : MonitorId) (id : BlockId) (bucket : Nat) : Prop where
  lt : id < c.blocks.size
  dead : (c.block id).live = false
  installed : (c.monitor m).installed = true
  bucket_lt : bucket < (c.monitor m).buckets.size
  start_le : (c.block id).start ≤ (c.block id).last
  last_lt : (c.block id).last < pageSize
  ordinary : bucket ≠ 0 → bucket = c.bucketOf (c.block id).start
  companion : bucket = 0 → (c.block id).start = 0
  unique : bucket ≠ 0 → ∀ x, (c.block x).owner = some m → (c.block x).isCompanion = false →
    (c.block x).start ≠ (c.block id).start

section

variable (h : Enlistable c m id bucket)
include h

theorem Enlistable.owner_enlist (x : BlockId) (n : MonitorId) :
    ((c.enlist m id bucket).block x).owner = some n ↔ x = id ∧ n = m ∨ x ≠ id ∧ (c.block x).owner = some n := by
  rw [block_enlist h.lt]
  by_cases hx : x = id
  · simp [hx, eq_comm]
  · simp [hx]

theorem Enlistable.owner_ne (hx : (c.block x).owner = some n) : x ≠ id := by
  rintro rfl
  have hdead := h.dead
  rw [Block.live, hx] at hdead
  exact absurd hdead (by simp)

theorem Enlistable.live_ne (hx : (c.block x).live = true) : x ≠ id := by
  obtain ⟨n, hn⟩ := live_iff.mp hx
  exact h.owner_ne hn

theorem Registry.enlist (hr : Registry c) : Registry (c.enlist m id bucket) := by
  have hmlt := lt_size_of_installed h.installed
  have hblock := fun x => block_enlist h.lt m bucket x
  have hself : (c.enlist m id bucket).block id = { c.block id with owner := some m, bucket := bucket } := by
    rw [hblock, if_pos rfl]
  have hother : ∀ x, x ≠ id → (c.enlist m id bucket).block x = c.block x := fun x hx => by rw [hblock, if_neg hx]
  have hinst : ∀ n, ((c.enlist m id bucket).monitor n).installed = (c.monitor n).installed := fun n =>
    Monitor.installed_eq_of_core (core_monitor_enlist c m id bucket n)
  have hlive : ∀ x, x ≠ id → ((c.enlist m id bucket).block x).live = (c.block x).live := fun x hx => by rw [hother x hx]
  refine ⟨fun n hn => ?_, fun n i x => ?_, fun n i => ?_, fun x n hx => ?_, fun x hx => ?_, fun x hx => ?_,
    fun x hx hord => ?_, fun x hx hcomp => ?_, fun a b n ha hb hca hcb hstart => ?_, fun n => ?_⟩
  · have hsize : (c.enlist m id bucket).monitors.size = c.monitors.size := size_modifyMonitor c m _
    rw [hsize] at hn
    rw [monitor_enlist hmlt]
    split
    · exact (Array.size_modify ..).trans (hr.bucketCount n hn)
    · exact hr.bucketCount n hn
  · rw [bucket_enlist hmlt h.bucket_lt, h.owner_enlist]
    by_cases hx : x = id
    · subst hx
      have hnot : x ∉ (c.monitor n).bucket i := fun hmem => h.owner_ne ((hr.mem_bucket n i x).mp hmem).1 rfl
      rw [hself]
      by_cases hni : n = m ∧ i = bucket
      · simp [hni.1, hni.2]
      · rw [if_neg hni]
        simp only [hnot, true_and, ne_eq, not_true_eq_false, false_and, or_false, false_iff, not_and]
        exact fun hn hi => hni ⟨hn, hi.symm⟩
    · rw [hother x hx]
      have hiff := hr.mem_bucket n i x
      split
      · simp [hx, hiff]
      · simp [hx, hiff]
  · rw [bucket_enlist hmlt h.bucket_lt]
    split
    · exact List.nodup_cons.mpr ⟨fun hmem => h.owner_ne ((hr.mem_bucket n i id).mp hmem).1 rfl, hr.nodup n i⟩
    · exact hr.nodup n i
  · rw [hinst]
    rcases (h.owner_enlist x n).mp hx with ⟨-, rfl⟩ | ⟨-, hx⟩
    · exact h.installed
    · exact hr.installed x n hx
  · by_cases hxid : x = id
    · rw [hxid, hself]
      exact h.start_le
    · rw [hother x hxid] at hx ⊢
      exact hr.start_le x hx
  · by_cases hxid : x = id
    · rw [hxid, hself]
      exact h.last_lt
    · rw [hother x hxid] at hx ⊢
      exact hr.last_lt x hx
  · by_cases hxid : x = id
    · rw [hxid, hself] at hord ⊢
      exact h.ordinary (by simpa [Block.isCompanion] using hord)
    · rw [hother x hxid] at hx hord ⊢
      exact hr.ordinary x hx hord
  · by_cases hxid : x = id
    · rw [hxid, hself] at hcomp ⊢
      exact h.companion (by simpa [Block.isCompanion] using hcomp)
    · rw [hother x hxid] at hx hcomp ⊢
      exact hr.companion x hx hcomp
  · have hnew : ∀ a b, a = id → b ≠ id → ((c.enlist m id bucket).block a).owner = some n →
        ((c.enlist m id bucket).block b).owner = some n → ((c.enlist m id bucket).block a).isCompanion = false →
        ((c.enlist m id bucket).block b).isCompanion = false →
        ((c.enlist m id bucket).block a).start = ((c.enlist m id bucket).block b).start → False := by
      rintro a b rfl hb ha hb' hca hcb hstart
      rw [hself] at ha hca hstart
      rw [hother b hb] at hb' hcb hstart
      obtain rfl : m = n := by simpa using ha
      exact h.unique (by simpa [Block.isCompanion] using hca) b hb' hcb hstart.symm
    by_cases hai : a = id
    · by_cases hbi : b = id
      · rw [hai, hbi]
      · exact (hnew a b hai hbi ha hb hca hcb hstart).elim
    · by_cases hbi : b = id
      · exact (hnew b a hbi hai hb ha hcb hca hstart.symm).elim
      · rw [hother a hai] at ha hca hstart
        rw [hother b hbi] at hb hcb hstart
        exact hr.start_inj a b n ha hb hca hcb hstart
  · rw [monitor_enlist hmlt]
    have howned : (c.enlist m id bucket).owned n = if n = m then insert id (c.owned n) else c.owned n := by
      ext x
      rw [mem_owned, h.owner_enlist]
      by_cases hnm : n = m
      · rw [if_pos hnm]
        by_cases hx : x = id
        · simp [hx, hnm]
        · simp [hx]
      · rw [if_neg hnm]
        by_cases hx : x = id
        · have : (c.block id).owner ≠ some n := fun h' => h.owner_ne h' rfl
          simp [hx, hnm, this]
        · simp [hx]
    rw [howned]
    by_cases hnm : n = m
    · have hnot : id ∉ c.owned n := fun hmem => h.owner_ne (mem_owned.mp hmem) rfl
      rw [if_pos hnm, if_pos hnm, Finset.card_insert_of_notMem hnot]
      exact congrArg (· + 1) (hr.active n)
    · rw [if_neg hnm, if_neg hnm]
      exact hr.active n

omit h in
theorem Watches.enlist (hw : Watches c) (m : MonitorId) (id : BlockId) (bucket : Nat) : Watches (c.enlist m id bucket) :=
  hw.congr rfl rfl rfl rfl (size_modifyMonitor c m _) (core_monitor_enlist c m id bucket)

theorem Linked.enlist (hl : Linked c c.Runnable) : Linked (c.enlist m id bucket) (c.enlist m id bucket).Runnable := by
  have hmonitor := Clearable.linked_modifyMonitor hl m fun mon =>
    { mon with activeBlocks := mon.activeBlocks + 1, buckets := mon.buckets.modify bucket (id :: ·) }
  have hblock : Linked (c.enlist m id bucket) c.Runnable :=
    Clearable.linked_modifyBlock hmonitor id (fun _ => rfl) fun _ => rfl
  refine hblock.mono fun x hx => ?_
  rw [Runnable, block_enlist h.lt, if_neg (h.live_ne hx.1)]
  exact hx

/-- Of the blocks that depend on a byte only the new one may be new. -/
theorem dependents_enlist (E : Finset BlockId) (n : MonitorId) (i : Nat) :
    (c.enlist m id bucket).dependents n i \ insert id E = c.dependents n i \ E := by
  ext x
  simp only [Finset.mem_sdiff, Finset.mem_insert, mem_dependents, not_or]
  by_cases hx : x = id
  · have hnone : (c.block id).owner ≠ some n := fun h' => h.owner_ne h' rfl
    simp [hx, hnone]
  · rw [block_enlist h.lt, if_neg hx]
    simp [hx]

omit h in
theorem cover_enlist (c : Cache) (m : MonitorId) (id : BlockId) (bucket : Nat) (n : MonitorId) :
    ((c.enlist m id bucket).monitor n).cover = (c.monitor n).cover :=
  map_monitor_modifyMonitor (g := Monitor.cover) c m n fun _ => rfl

theorem CappedAt.enlist {U : Nat → Finset BlockId} (hcap : CappedAt c U) :
    CappedAt (c.enlist m id bucket) fun i => insert id (U i) := by
  refine ⟨fun n => ?_, fun n i => ?_⟩
  · rw [cover_enlist]
    exact hcap.size n
  · rw [cover_enlist, dependents_enlist h]
    exact hcap.le n i

/-- The new block is not counted yet. -/
theorem Census.enlist (hc : Census c E) : Census (c.enlist m id bucket) (insert id E) := by
  have hcover := cover_enlist c m id bucket
  have hinst : ∀ n, ((c.enlist m id bucket).monitor n).installed = (c.monitor n).installed := fun n =>
    Monitor.installed_eq_of_core (core_monitor_enlist c m id bucket n)
  refine ⟨fun n hn => ?_, fun n hn i hi => ?_⟩
  · rw [hcover]
    exact hc.size n (hinst n ▸ hn)
  · rw [hcover, hc.count n (hinst n ▸ hn) i hi, dependents_enlist h]

end

/-! ### Blocks by their start -/

theorem bucketOf_lt (h : c.settings.Valid) {offset : Nat} (hoffset : offset < pageSize) :
    c.bucketOf offset < c.settings.hashBuckets := by
  have hshift : c.settings.hashShift < pageShift := h.facts.2.2
  have hdvd : 2 ^ c.settings.hashShift ∣ pageSize := Nat.pow_dvd_pow 2 (Nat.le_of_lt hshift)
  rw [bucketOf, Settings.hashBuckets, Nat.shiftRight_eq_div_pow, Nat.shiftRight_eq_div_pow]
  exact Nat.add_lt_add_left (Nat.div_lt_div_of_lt_of_dvd hdvd hoffset) 1

theorem find_eq_none (h : Registry c) {offset : Nat} (hfind : c.find m offset = none)
    (hx : (c.block x).owner = some m) (hord : (c.block x).isCompanion = false) : (c.block x).start ≠ offset := by
  intro hstart
  have hbucket := h.ordinary x (live_iff.mpr ⟨m, hx⟩) hord
  rw [hstart] at hbucket
  have hmem := (h.mem_bucket m _ x).mpr ⟨hx, hbucket⟩
  rw [find, List.find?_eq_none] at hfind
  exact hfind x hmem (by simpa using hstart)

/-- The block that was found is the one that starts there. -/
theorem find_spec (h : Registry c) {offset : Nat} (hfind : c.find m offset = some id) :
    (c.block id).owner = some m ∧ (c.block id).isCompanion = false ∧ (c.block id).start = offset := by
  have hmem := List.mem_of_find?_eq_some hfind
  have hstart := List.find?_some hfind
  obtain ⟨howner, hbucket⟩ := (h.mem_bucket m _ id).mp hmem
  refine ⟨howner, ?_, by simpa using hstart⟩
  rw [Block.isCompanion, hbucket, bucketOf]
  simp

/-! ### New blocks -/

theorem Pool.enlist {next : BlockId → Option BlockId} {size : BlockId → Nat} {spans free : List BlockId}
    {loose : Option BlockId} (h : Pool c next size spans free loose) (hid : id < c.blocks.size) (hfree : id ∉ free)
    (hspan : id ∈ spans ↔ bucket ≠ 0) (hloose : ∀ x, x ≠ id → loose ≠ some x) :
    Pool (c.enlist m id bucket) next size spans free none := by
  have hother : ∀ x, x ≠ id → (c.enlist m id bucket).block x = c.block x := fun x hx => by rw [block_enlist hid, if_neg hx]
  have hself : (c.enlist m id bucket).block id = { c.block id with owner := some m, bucket := bucket } := by
    rw [block_enlist hid, if_pos rfl]
  have hcomp : ((c.enlist m id bucket).block id).isCompanion = decide (bucket = 0) := by
    rw [hself]
    rfl
  have hfield : ∀ {α : Type} (g : Block → α) (_ : ∀ b, g { b with owner := some m, bucket := bucket } = g b) (x : BlockId),
      g ((c.enlist m id bucket).block x) = g (c.block x) := fun g hg x => map_block_modifyBlock _ id x hg
  have hnext := hfield Block.freeNext fun _ => rfl
  have hstart := hfield Block.codeStart fun _ => rfl
  have hsize : (c.enlist m id bucket).blocks.size = c.blocks.size := by simp [Cache.enlist]
  refine ⟨h.spanPath, h.freePath.congr fun x _ => hnext x, h.apart, ?_, ?_, fun x hx => ?_, fun x hx => ?_,
    fun x hx => ?_, fun x hx _ => ?_, h.active, h.tiled.congr (fun x _ => hstart x) fun _ _ => rfl, ?_⟩
  · rw [hsize]
    exact h.spans_lt
  · rw [hsize]
    exact h.free_lt
  · rw [hother x fun hxid => hfree (hxid ▸ hx)]
    exact h.free_dead x hx
  · by_cases hxid : x = id
    · rw [hxid, hcomp]
      exact decide_eq_false (hspan.mp (hxid ▸ hx))
    · rw [hother x hxid]
      exact h.ordinary x hx
  · by_cases hxid : x = id
    · rw [Runnable, hxid, hcomp] at hx
      rw [hxid]
      exact hspan.mpr (of_decide_eq_false hx.2)
    · rw [Runnable, hother x hxid] at hx
      exact h.span_of_live x hx
  · by_cases hxid : x = id
    · by_cases hbucket : bucket = 0
      · rw [hxid, hcomp, hself]
        exact .inr (.inr ⟨rfl, decide_eq_true hbucket⟩)
      · rw [hxid]
        exact .inl (hspan.mpr hbucket)
    · rw [hother x hxid]
      exact h.placed x (hsize ▸ hx) (hloose x hxid)
  · change ((c.enlist m id bucket).block c.active).codeStart + c.settings.maxBlockSize ≤ _
    rw [hstart]
    exact h.cursor

theorem Paired.companion_of_dead (h : Paired c) (hdead : (c.block id).live = false) : (c.block id).companion = none := by
  cases hcomp : (c.block id).companion with
  | none => rfl
  | some o =>
      have hlive := h.live id o hcomp
      rw [hdead] at hlive
      exact absurd hlive (by simp)

theorem companion_enlist (c : Cache) (m : MonitorId) (id : BlockId) (bucket : Nat) (x : BlockId) :
    ((c.enlist m id bucket).block x).companion = (c.block x).companion :=
  map_block_modifyBlock (g := Block.companion) _ id x fun _ => rfl

/-- Blocks on two pages are not touched by a new one. -/
theorem Enlistable.block_paired (he : Enlistable c m id bucket) (h : Paired c) {a b : BlockId}
    (hab : (c.block a).companion = some b) : (c.enlist m id bucket).block a = c.block a := by
  rw [block_enlist he.lt, if_neg]
  rintro rfl
  rw [h.companion_of_dead he.dead] at hab
  exact absurd hab (by simp)

theorem bucketOf_ne_zero (c : Cache) (offset : Nat) : c.bucketOf offset ≠ 0 := by
  simp [bucketOf]

/-- Registering a block by its start. -/
theorem Sound.addBlock (h : Sound c) (he : Enlistable c m id (c.bucketOf (c.block id).start)) (hactive : c.active = id) :
    Sound (c.addBlock m id) := by
  unfold Cache.addBlock
  have hne := c.bucketOf_ne_zero (c.block id).start
  generalize c.bucketOf (c.block id).start = bucket at he hne
  have hblock : ∀ x, (c.enlist m id bucket).block x =
      if x = id then { c.block x with owner := some m, bucket := bucket } else c.block x := block_enlist he.lt m bucket
  have hcompanion := companion_enlist c m id bucket
  have hold : ∀ a b, (c.block a).companion = some b → (c.enlist m id bucket).block a = c.block a := fun a b =>
    he.block_paired h.paired
  refine ⟨⟨⟨h.registry.enlist he, ⟨fun a b => ?_, fun a b hab => ?_, fun a b hab => ?_, fun b hb hcomp => ?_⟩⟩,
    h.valid, h.watches.enlist m id bucket⟩, ⟨?_, h.layout.linked.enlist he⟩, h.calm⟩
  · rw [hcompanion, hcompanion]
    exact h.paired.symm a b
  · rw [hcompanion] at hab
    rw [hold a b hab]
    exact h.paired.live a b hab
  · rw [hcompanion] at hab
    rw [hold a b hab, hold b a (h.paired.symm a b hab)]
    exact h.paired.kind a b hab
  · rw [hcompanion]
    by_cases hxid : b = id
    · rw [hblock, if_pos hxid] at hcomp
      exact absurd hcomp (by simpa [Block.isCompanion] using hne)
    · rw [hblock, if_neg hxid] at hb hcomp
      exact h.paired.partner b hb hcomp
  · obtain ⟨spans, free, hp⟩ := h.layout.pool
    have hspan : id ∈ spans := hactive ▸ hp.active
    have hnext : (fun b => ((c.enlist m id bucket).block b).arenaNext) = fun b => (c.block b).arenaNext :=
      funext fun b => by rw [hblock]; split <;> rfl
    have hsize : (fun b => ((c.enlist m id bucket).block b).codeSize) = fun b => (c.block b).codeSize :=
      funext fun b => by rw [hblock]; split <;> rfl
    rw [hnext, hsize]
    exact ⟨spans, free, hp.enlist he.lt (hp.apart id hspan) (iff_of_true hspan hne) fun _ _ => by simp⟩

/-- The bytes of the new block are not counted yet. -/
theorem Exact.addBlock (hx : Exact c E) (h : Paired c) (he : Enlistable c m id (c.bucketOf (c.block id).start)) :
    Exact (c.addBlock m id) (insert id E) := by
  unfold Cache.addBlock
  generalize c.bucketOf (c.block id).start = bucket at he
  have hpage : ∀ n, ((c.enlist m id bucket).monitor n).page = (c.monitor n).page := fun n =>
    Monitor.page_eq_of_core (core_monitor_enlist c m id bucket n)
  refine ⟨fun a b k l hab ha hk hl => ?_, hx.census.enlist he⟩
  rw [companion_enlist] at hab
  rw [he.block_paired h hab] at ha hk
  rw [he.block_paired h (h.symm a b hab)] at hl
  rw [hpage, hpage]
  exact hx.adjacent a b k l hab ha hk hl

/-! ### Companions -/

/-- A sound cache, but for a blank descriptor that is neither a span nor free. -/
structure Unlisted (c : Cache) (id : BlockId) : Prop extends Orderly c where
  lt : id < c.blocks.size
  blank : c.block id = {}
  pool : ∃ spans free, Pool c (fun b => (c.block b).arenaNext) (fun b => (c.block b).codeSize) spans free (some id) ∧
    id ∉ spans ∧ id ∉ free
  linked : Linked c c.Runnable
  calm : c.stats.anomalies = 0

/-- What taking a free descriptor does. -/
structure Allocated (c : Cache) (id : BlockId) (c' : Cache) : Prop where
  unlisted : Unlisted c' id
  exact : ∀ E, Exact c E → Exact c' E
  capped : ∀ U, CappedAt c U → CappedAt c' U
  shrinks : Shrinks c c'
  dead : (c.block id).live = false
  block : ∀ x, x ≠ id → c'.block x = c.block x
  monitor : ∀ n, c'.monitor n = c.monitor n

/-- No link leads from or to a block without code of its own. -/
theorem Linked.linkSlot_eq_of_not {P : BlockId → Prop} (h : Linked c P) (hid : ¬P id) (k : Slot) : c.linkSlot id k = {} := by
  have htarget : (c.linkSlot id k).target = none :=
    Option.eq_none_iff_forall_ne_some.mpr fun b hb => hid (h.ends id b k hb).1
  obtain ⟨sources, hs⟩ := h.slots k
  have hnone : sources id = [] :=
    List.eq_nil_iff_forall_not_mem.mpr fun a ha => hid (h.ends a id k ((hs.mem a id).mp ha)).2
  have hpath := hs.path id
  rw [hnone, Path.nil_iff] at hpath
  have hnext := hs.idle id htarget
  cases hslot : c.linkSlot id k with
  | mk target next source =>
      rw [hslot] at htarget hnext hpath
      dsimp only at htarget hnext hpath
      rw [htarget, hnext, hpath]

theorem Linked.blank (h : Linked c c.Runnable) (hdead : (c.block id).live = false) :
    Linked (c.modifyBlock id fun _ => {}) c.Runnable := by
  have hnot : ¬c.Runnable id := fun h' => by
    rw [Runnable, hdead] at h'
    exact absurd h'.1 (by simp)
  refine h.congr (size_modifyBlock c id _) rfl rfl rfl (fun x k => ?_) (fun x hx => ?_) fun _ hx => hx
  · by_cases hx : x = id
    · rw [hx, h.linkSlot_eq_of_not hnot, linkSlot, block_modifyBlock]
      split
      · cases k <;> rfl
      · rename_i hlt
        rw [← linkSlot, h.linkSlot_eq_of_not hnot]
    · rw [linkSlot, block_modifyBlock_ne _ hx, linkSlot]
  · rw [block_modifyBlock_ne]
    rintro rfl
    exact hnot hx

theorem allocate_spec (h : Sound c) (halloc : c.allocate = .ok (id, c')) : Allocated c id c' := by
  unfold allocate at halloc
  split at halloc
  · cases halloc
  · rename_i hhead
    cases halloc
    obtain ⟨spans, free, hp⟩ := h.layout.pool
    obtain ⟨rest, rfl⟩ : ∃ rest, free = id :: rest := by
      have hpath := hp.freePath
      rw [hhead] at hpath
      cases free with
      | nil => exact absurd (Path.nil_iff.mp hpath) (by simp)
      | cons a rest => exact ⟨rest, by rw [Option.some.inj hpath.1]⟩
    have hlt := hp.free_lt id List.mem_cons_self
    have hdead := hp.free_dead id List.mem_cons_self
    have hspan : id ∉ spans := fun hid => hp.apart id hid List.mem_cons_self
    have hnot : id ∉ rest := (List.nodup_cons.mp hp.freePath.nodup).1
    have hself : (c.modifyBlock id fun _ => {}).block id = {} := block_modifyBlock_self hlt _
    have hother : ∀ x, x ≠ id → (c.modifyBlock id fun _ => {}).block x = c.block x := fun x hx => block_modifyBlock_ne _ hx _
    have horderly : Orderly (c.modifyBlock id fun _ => {}) := h.toOrderly.rewriteDead hdead rfl rfl
    have hexact : ∀ E, Exact c E → Exact (c.modifyBlock id fun _ => {}) E := fun E he => he.rewriteDead hdead rfl h.paired rfl
    have hcapped : ∀ U, CappedAt c U → CappedAt (c.modifyBlock id fun _ => {}) U := fun U hcap => hcap.rewriteDead hdead rfl
    have hlinked := h.layout.linked.blank hdead
    have hlive : ∀ x, ((c.modifyBlock id fun _ => {}).block x).live = true → x ≠ id := by
      rintro x hx rfl
      rw [hself] at hx
      exact absurd hx (by decide)
    have hfree := hp.freePath.2
    generalize hd : (c.modifyBlock id fun _ => {}) = d at hself hother horderly hexact hcapped hlinked hlive
    have hsize : d.blocks.size = c.blocks.size := by rw [← hd, size_modifyBlock]
    have hsame : ShellSame c d := hd ▸ ShellSame.modifyBlock c id _
    have hstats : d.stats = c.stats := by rw [← hd]; rfl
    have hne : ∀ x ∈ spans, x ≠ id := fun x hx hxid => hspan (hxid ▸ hx)
    have hpool : Pool { d with freeHead := (c.block id).freeNext } (fun b => (d.block b).arenaNext)
        (fun b => (d.block b).codeSize) spans rest (some id) := by
      refine ⟨hp.spanPath.congr fun x hx => ?_, hfree.congr fun x hx => ?_, fun x hx hx' => ?_, fun x hx => ?_,
        fun x hx => ?_, fun x hx => ?_, fun x hx => ?_, fun x hx => ?_, fun x hx hloose => ?_, ?_, ?_, ?_⟩
      · rw [hother x (hne x hx)]
      · exact congrArg Block.freeNext (hother x fun hxid => hnot (hxid ▸ hx))
      · exact hp.apart x hx (List.mem_cons_of_mem id hx')
      · exact hsize ▸ hp.spans_lt x hx
      · exact hsize ▸ hp.free_lt x (List.mem_cons_of_mem id hx)
      · change (d.block x).live = false
        rw [hother x fun hxid => hnot (hxid ▸ hx)]
        exact hp.free_dead x (List.mem_cons_of_mem id hx)
      · change (d.block x).isCompanion = false
        rw [hother x (hne x hx)]
        exact hp.ordinary x hx
      · obtain ⟨hx, hord⟩ : (d.block x).live = true ∧ (d.block x).isCompanion = false := hx
        have hne' := hlive x hx
        rw [hother x hne'] at hx hord
        exact hp.span_of_live x ⟨hx, hord⟩
      · change x ∈ spans ∨ x ∈ rest ∨ (d.block x).live = true ∧ (d.block x).isCompanion = true
        have hxid : x ≠ id := fun h' => hloose (by rw [h'])
        rw [hother x hxid]
        simpa [hxid] using hp.placed x (hsize ▸ hx) (by simp)
      · exact hsame.active ▸ hp.active
      · have htiled := hp.tiled
        rw [← hsame.settings, ← hsame.blocksStart] at htiled
        exact htiled.congr (fun x hx => congrArg Block.codeStart (hother x (hne x hx)))
          fun x hx => congrArg Block.codeSize (hother x (hne x hx))
      · have hcursor := hp.cursor
        rw [← hother _ (hne _ hp.active), ← hsame.active, ← hsame.settings, ← hsame.blocksStart] at hcursor
        exact hcursor
    refine ⟨⟨⟨⟨horderly.registry.congr rfl (fun _ => rfl) rfl (fun _ => rfl) horderly.registry.installed
      horderly.registry.active, horderly.paired.congr fun _ => rfl⟩, horderly.valid, horderly.watches.congr rfl rfl rfl rfl rfl fun _ => rfl⟩,
      hsize ▸ hlt, hself, ⟨spans, rest, hpool, hspan, hnot⟩, ?_, hstats ▸ h.calm⟩, fun E he => ?_,
      fun U hcap => ⟨(hcapped U hcap).size, (hcapped U hcap).le⟩,
      ⟨⟨hsame.shell, hsame.size, hsame.monitorsSize, hsame.tableSize⟩, fun x hx => ?_, fun n => ?_⟩, hdead, hother, fun n => ?_⟩
    · refine hlinked.congr rfl rfl rfl rfl (fun _ _ => rfl) (fun _ _ => rfl) fun x hx => ?_
      have hxid : x ≠ id := by
        rintro rfl
        rw [Runnable, hdead] at hx
        exact absurd hx.1 (by simp)
      change (d.block x).live = true ∧ (d.block x).isCompanion = false
      rw [hother x hxid]
      exact hx
    · exact ⟨(hexact E he).adjacent.congr (fun _ => rfl) fun _ _ _ => rfl,
        (hexact E he).census.congr (fun _ => rfl) fun _ hn => ⟨hn, rfl⟩⟩
    · exact congrArg Block.core (hother x (hlive x hx))
    · rw [← hd]; rfl
    · rw [← hd]; rfl

/-- A block that may go on to the page of a monitor. -/
structure Pairable (c : Cache) (m : MonitorId) (id : BlockId) : Prop where
  installed : (c.monitor m).installed = true
  live : (c.block id).live = true
  ordinary : (c.block id).isCompanion = false
  single : (c.block id).companion = none

theorem claim_pair (c : Cache) (id o x : BlockId) : ((c.pair id o).block x).claim = (c.block x).claim := by
  have hpart : ∀ (c : Cache) (a : BlockId) (b : Option BlockId),
      ((c.modifyBlock a fun d => { d with companion := b }).block x).claim = (c.block x).claim :=
    fun c a b => map_block_modifyBlock c a x fun _ => rfl
  rw [Cache.pair, hpart, hpart]

theorem block_pair (hid : id < c.blocks.size) (ho : o < c.blocks.size) (hne : id ≠ o) (x : BlockId) :
    (c.pair id o).block x =
      { c.block x with
        companion := if x = o then some id else if x = id then some o else (c.block x).companion } := by
  unfold Cache.pair
  by_cases hx : x = o
  · subst hx
    rw [block_modifyBlock_ne _ hne.symm, block_modifyBlock_self ho, if_pos rfl]
  · rw [if_neg hx]
    by_cases hxid : x = id
    · subst hxid
      rw [if_pos rfl, block_modifyBlock_self (by rwa [size_modifyBlock]), block_modifyBlock_ne _ hx]
    · rw [if_neg hxid, block_modifyBlock_ne _ hxid, block_modifyBlock_ne _ hx]

theorem Linked.pair {P : BlockId → Prop} (h : Linked c P) (id o : BlockId) : Linked (c.pair id o) P := by
  have hfirst : Linked (c.modifyBlock o fun b => { b with companion := some id }) P :=
    Clearable.linked_modifyBlock h o (fun _ => rfl) fun _ => rfl
  exact Clearable.linked_modifyBlock hfirst id (fun _ => rfl) fun _ => rfl

namespace Unlisted

variable (h : Unlisted c o)
include h

theorem addCompanion_eq (m : MonitorId) : c.addCompanion m o = c.enlist m o 0 := by
  rw [addCompanion, modifyBlock_of_fixed]
  rw [h.blank]

theorem ne (hid : (c.block id).live = true) : id ≠ o := by
  rintro rfl
  rw [h.blank] at hid
  exact absurd hid (by decide)

theorem enlistable (hm : (c.monitor m).installed = true) : Enlistable c m o 0 := by
  refine ⟨h.lt, by rw [h.blank]; rfl, hm, ?_, ?_, ?_, fun h0 => absurd rfl h0, fun _ => ?_, fun h0 => absurd rfl h0⟩
  · rw [h.registry.bucketCount m (lt_size_of_installed hm)]
    exact Nat.lt_add_right _ Nat.one_pos
  all_goals rw [h.blank]
  · decide

theorem block_pair (hid : (c.block id).live = true) (m : MonitorId) (x : BlockId) :
    ((c.addCompanion m o).pair id o).block x =
      if x = o then { owner := some m, companion := some id }
      else if x = id then { c.block x with companion := some o } else c.block x := by
  have hsize : (c.enlist m o 0).blocks.size = c.blocks.size := by simp [enlist]
  rw [h.addCompanion_eq, Cache.block_pair (hsize ▸ lt_size_of_live hid) (hsize ▸ h.lt) (h.ne hid), block_enlist h.lt]
  by_cases hx : x = o
  · rw [if_pos hx, if_pos hx, if_pos hx, hx, h.blank]
  · rw [if_neg hx, if_neg hx, if_neg hx]
    split <;> rfl

theorem core_monitor_pair (m : MonitorId) (id : BlockId) (n : MonitorId) :
    (((c.addCompanion m o).pair id o).monitor n).core = (c.monitor n).core := by
  rw [h.addCompanion_eq, Cache.pair, monitor_modifyBlock, monitor_modifyBlock]
  exact core_monitor_enlist c m o 0 n

/-- Which blocks belong together after a block got its other part. -/
theorem companion_pair (hid : Pairable c m id) (a b : BlockId) :
    (((c.addCompanion m o).pair id o).block a).companion = some b ↔
      a = o ∧ b = id ∨ a = id ∧ b = o ∨ a ≠ o ∧ a ≠ id ∧ (c.block a).companion = some b := by
  rw [h.block_pair hid.live]
  by_cases hao : a = o
  · subst hao
    simp [(h.ne hid.live).symm, eq_comm]
  · by_cases haid : a = id
    · subst haid
      simp [hao, eq_comm]
    · simp [hao, haid]

/-- The two new parts had no other part before. -/
theorem ne_of_companion (hid : Pairable c m id) {a b : BlockId} (hab : (c.block a).companion = some b) : a ≠ o ∧ a ≠ id := by
  constructor
  · rintro rfl
    rw [h.blank] at hab
    exact absurd hab (by simp)
  · rintro rfl
    rw [hid.single] at hab
    exact absurd hab (by simp)

/-- A block gets its part on another page. -/
theorem pair (hid : Pairable c m id) : Sound ((c.addCompanion m o).pair id o) := by
  have hblock := h.block_pair hid.live m
  have hne := h.ne hid.live
  have he := h.enlistable hid.installed
  have hregistry := h.registry.enlist he
  have hcore := core_monitor_enlist c m o 0
  have hwatches := h.watches.enlist m o 0
  have hlinked := h.linked.enlist he
  have hcompanion := h.companion_pair hid
  obtain ⟨spans, free, hp, hspan, hfree⟩ := h.pool
  have hp' : Pool (c.enlist m o 0) _ _ spans free none :=
    hp.enlist h.lt hfree (iff_of_false hspan (by simp)) fun x hx hxo => hx (Option.some.inj hxo).symm
  rw [h.addCompanion_eq] at hblock hcompanion ⊢
  have hsettings : (c.enlist m o 0).settings = c.settings := rfl
  have hstats : (c.enlist m o 0).stats = c.stats := rfl
  generalize c.enlist m o 0 = d at *
  have hclaim := claim_pair d id o
  have hself : (d.pair id o).block o = { owner := some m, companion := some id } := by
    rw [hblock, if_pos rfl]
  have hprimary : (d.pair id o).block id = { c.block id with companion := some o } := by
    rw [hblock, if_neg hne, if_pos rfl]
  have hother : ∀ x, x ≠ o → x ≠ id → (d.pair id o).block x = c.block x := fun x hxo hxid => by
    rw [hblock, if_neg hxo, if_neg hxid]
  refine ⟨⟨⟨?_, ⟨fun a b hab => ?_, fun a b hab => ?_, fun a b hab => ?_, fun b hb hcomp => ?_⟩⟩, hsettings ▸ h.valid, ?_⟩,
    ⟨⟨spans, free, ?_⟩, ?_⟩, ?_⟩
  · exact hregistry.congr rfl hclaim rfl (fun _ => rfl) hregistry.installed hregistry.active
  · rw [hcompanion] at hab ⊢
    rcases hab with ⟨rfl, rfl⟩ | ⟨rfl, rfl⟩ | ⟨hao, haid, hab⟩
    · exact .inr (.inl ⟨rfl, rfl⟩)
    · exact .inl ⟨rfl, rfl⟩
    · have hba := h.paired.symm a b hab
      obtain ⟨hbo, hbid⟩ := h.ne_of_companion hid hba
      exact .inr (.inr ⟨hbo, hbid, hba⟩)
  · rcases (hcompanion a b).mp hab with ⟨rfl, -⟩ | ⟨rfl, -⟩ | ⟨hao, haid, hab⟩
    · rw [hself]
      rfl
    · rw [hprimary]
      exact hid.live
    · rw [hother a hao haid]
      exact h.paired.live a b hab
  · rcases (hcompanion a b).mp hab with ⟨rfl, rfl⟩ | ⟨rfl, rfl⟩ | ⟨hao, haid, hab⟩
    · rw [hself, hprimary]
      exact hid.ordinary
    · rw [hself, hprimary]
      exact (congrArg not hid.ordinary).symm
    · obtain ⟨hbo, hbid⟩ := h.ne_of_companion hid (h.paired.symm a b hab)
      rw [hother a hao haid, hother b hbo hbid]
      exact h.paired.kind a b hab
  · by_cases hbo : b = o
    · rw [hbo, hself]
      rfl
    · by_cases hbid : b = id
      · rw [hbid, hprimary]
        rfl
      · rw [hother b hbo hbid] at hb hcomp ⊢
        exact h.paired.partner b hb hcomp
  · exact hwatches.congr rfl rfl rfl rfl rfl fun _ => rfl
  · have hsize : (d.pair id o).blocks.size = d.blocks.size := by simp [Cache.pair]
    have hfield : ∀ {α : Type} (g : Block → α) (_ : ∀ b v, g { b with companion := v } = g b) (x : BlockId),
        g ((d.pair id o).block x) = g (d.block x) := fun g hg x => by
      rw [Cache.pair, map_block_modifyBlock (g := g) _ id x fun b => hg b _, map_block_modifyBlock (g := g) _ o x fun b => hg b _]
    have hplace : ∀ x, ((d.pair id o).block x).arenaNext = (c.block x).arenaNext ∧
        ((d.pair id o).block x).codeSize = (c.block x).codeSize := fun x => by
      rw [hblock]
      split
      · rename_i hx
        rw [hx, h.blank]
        exact ⟨rfl, rfl⟩
      · split <;> exact ⟨rfl, rfl⟩
    simp only [hplace]
    exact hp'.congr (fun x => Block.live_eq_of_claim (hclaim x)) (fun x => Block.isCompanion_eq_of_claim (hclaim x))
      (hfield Block.freeNext fun _ _ => rfl) (hfield Block.codeStart fun _ _ => rfl) rfl hsize rfl rfl rfl
  · refine (hlinked.pair id o).mono fun x hx => ?_
    rw [Runnable, Block.live_eq_of_claim (hclaim x), Block.isCompanion_eq_of_claim (hclaim x)]
    exact hx
  · exact (congrArg CacheStats.anomalies hstats).trans h.calm

/-- The new part is on the page after the other part. -/
theorem adjacent_pair (hid : Pairable c m id) (hadj : Adjacent c)
    (hnext : ∀ k, (c.block id).owner = some k → (c.monitor m).page = nextPage (c.monitor k).page) :
    Adjacent ((c.addCompanion m o).pair id o) := by
  have hpage : ∀ n, (((c.addCompanion m o).pair id o).monitor n).page = (c.monitor n).page := fun n =>
    Monitor.page_eq_of_core (h.core_monitor_pair m id n)
  have hblock := h.block_pair hid.live m
  intro a b k l hab ha hk hl
  rw [hpage, hpage]
  rw [hblock] at ha hk hl
  rcases (h.companion_pair hid a b).mp hab with ⟨rfl, rfl⟩ | ⟨rfl, rfl⟩ | ⟨hao, haid, hab⟩
  · rw [if_pos rfl] at ha
    exact Bool.noConfusion ha
  · rw [if_pos rfl] at hl
    rw [if_neg (h.ne hid.live), if_pos rfl] at hk
    obtain rfl : m = l := Option.some.inj hl
    exact hnext k hk
  · obtain ⟨hbo, hbid⟩ := h.ne_of_companion hid (h.paired.symm a b hab)
    rw [if_neg hao, if_neg haid] at ha hk
    rw [if_neg hbo, if_neg hbid] at hl
    exact hadj a b k l hab ha hk hl

/-- Nothing of the new part is counted yet. -/
theorem exact_pair (hid : Pairable c m id) (hx : Exact c E)
    (hnext : ∀ k, (c.block id).owner = some k → (c.monitor m).page = nextPage (c.monitor k).page) :
    Exact ((c.addCompanion m o).pair id o) (insert o E) := by
  refine ⟨h.adjacent_pair hid hx.adjacent hnext, ?_⟩
  rw [h.addCompanion_eq]
  exact (hx.census.enlist (h.enlistable hid.installed)).congr (claim_pair _ id o) fun _ hn => ⟨hn, rfl⟩

end Unlisted

theorem ShellSame.addCompanion_pair (c : Cache) (m : MonitorId) (id o : BlockId) :
    ShellSame c ((c.addCompanion m o).pair id o) := by
  have hadd : ShellSame c (c.addCompanion m o) :=
    ((ShellSame.modifyBlock c o _).trans (.modifyMonitor _ m _)).trans (.modifyBlock _ o _)
  generalize c.addCompanion m o = d at hadd
  exact hadd.trans ((ShellSame.modifyBlock d o _).trans (.modifyBlock _ id _))

end Cache

end Recompiler
