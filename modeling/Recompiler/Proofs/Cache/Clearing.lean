import Recompiler.Proofs.Cache.Sound

/-! Clearing a live block keeps the cache sound, and its write maps go on counting exactly the blocks that are
left. -/

namespace Recompiler.Cache

variable {c : Cache} {id x : BlockId}

namespace Clearable

/-- What wiping keeps of a descriptor is kept of all descriptors. -/
theorem map_block_clearBlock (h : Clearable c id) {α : Type} {g : Block → α} (hlinks : ∀ b, g b.unlinked = g b)
    (hwiped : ∀ b, g (b.wiped c.freeHead) = g b) (x : BlockId) :
    g ((c.clearBlock id).block x) = g (c.block x) := by
  rw [← hlinks, h.unlinked_clearBlock]
  split
  · rw [hwiped, hlinks]
  · rw [hlinks]

theorem start_clearBlock (h : Clearable c id) (x : BlockId) : ((c.clearBlock id).block x).start = (c.block x).start :=
  h.map_block_clearBlock (fun _ => rfl) (fun _ => rfl) x

theorem last_clearBlock (h : Clearable c id) (x : BlockId) : ((c.clearBlock id).block x).last = (c.block x).last :=
  h.map_block_clearBlock (fun _ => rfl) (fun _ => rfl) x

theorem bucket_clearBlock (h : Clearable c id) (x : BlockId) :
    ((c.clearBlock id).block x).bucket = (c.block x).bucket :=
  h.map_block_clearBlock (fun _ => rfl) (fun _ => rfl) x

theorem isCompanion_clearBlock (h : Clearable c id) (x : BlockId) :
    ((c.clearBlock id).block x).isCompanion = (c.block x).isCompanion :=
  h.map_block_clearBlock (fun _ => rfl) (fun _ => rfl) x

theorem codeStart_clearBlock (h : Clearable c id) (x : BlockId) :
    ((c.clearBlock id).block x).codeStart = (c.block x).codeStart :=
  h.map_block_clearBlock (fun _ => rfl) (fun _ => rfl) x

theorem codeSize_clearBlock (h : Clearable c id) (x : BlockId) :
    ((c.clearBlock id).block x).codeSize = (c.block x).codeSize :=
  h.map_block_clearBlock (fun _ => rfl) (fun _ => rfl) x

theorem arenaNext_clearBlock (h : Clearable c id) (x : BlockId) :
    ((c.clearBlock id).block x).arenaNext = (c.block x).arenaNext :=
  h.map_block_clearBlock (fun _ => rfl) (fun _ => rfl) x

theorem owner_clearBlock (h : Clearable c id) (x : BlockId) :
    ((c.clearBlock id).block x).owner = if c.Part id x then none else (c.block x).owner := by
  rw [← Block.unlinked_owner, h.unlinked_clearBlock]
  split <;> rfl

theorem companion_clearBlock (h : Clearable c id) (x : BlockId) :
    ((c.clearBlock id).block x).companion = if c.Part id x then none else (c.block x).companion := by
  rw [← Block.unlinked_companion, h.unlinked_clearBlock]
  split <;> rfl

/-- Descriptors of other blocks change in their links at most. -/
theorem unlinked_clearBlock_of_not_part (h : Clearable c id) (hx : ¬c.Part id x) :
    ((c.clearBlock id).block x).unlinked = (c.block x).unlinked := by
  rw [h.unlinked_clearBlock, if_neg hx]

theorem live_clearBlock (h : Clearable c id) (x : BlockId) :
    ((c.clearBlock id).block x).live = true ↔ ¬c.Part id x ∧ (c.block x).live = true := by
  rw [Block.live, h.owner_clearBlock, Block.live]
  split
  · rename_i hx
    simp [hx]
  · rename_i hx
    simp [hx]

theorem freeNext_clearBlock (h : Clearable c id) (x : BlockId) :
    ((c.clearBlock id).block x).freeNext =
      if c.Part id x ∧ (c.block x).isCompanion then c.freeHead else (c.block x).freeNext := by
  rw [← Block.unlinked_freeNext, h.unlinked_clearBlock]
  by_cases hx : c.Part id x
  · cases hc : (c.block x).isCompanion <;> simp [hx, Block.wiped, hc]
  · simp [hx]

end Clearable

/-! ### Monitors that give up a block -/

section Struck

variable {mon : Monitor} {n : MonitorId}

theorem mem_bucket_struck {i : Nat} {x' : BlockId} (hnodup : (mon.bucket i).Nodup) :
    x' ∈ (c.struck x n mon).bucket i ↔
      x' ∈ mon.bucket i ∧ ¬(x' = x ∧ (c.block x).owner = some n ∧ (c.block x).bucket = i) := by
  unfold struck
  split
  · rename_i howner
    rw [bucket_without]
    split
    · rename_i hi
      rw [hnodup.mem_erase_iff]
      simp [howner, hi, and_comm]
    · rename_i hi
      simp [Ne.symm hi]
  · rename_i howner
    simp [howner]

theorem nodup_bucket_struck {i : Nat} (hnodup : (mon.bucket i).Nodup) : ((c.struck x n mon).bucket i).Nodup := by
  unfold struck
  split
  · rw [bucket_without]
    split
    · exact hnodup.erase x
    · exact hnodup
  · exact hnodup

theorem size_buckets_struck : (c.struck x n mon).buckets.size = mon.buckets.size := by
  unfold struck Monitor.without
  split
  · exact Array.size_modify ..
  · rfl

theorem core_struck : (c.struck x n mon).core = mon.core := by
  unfold struck
  split <;> rfl

theorem activeBlocks_struck :
    (c.struck x n mon).activeBlocks = if (c.block x).owner = some n then mon.activeBlocks - 1 else mon.activeBlocks := by
  unfold struck
  split <;> rfl

/-- A byte that is given back. -/
def lowered (n : UInt16) : UInt16 :=
  if n = 0 then 0 else n - 1

theorem toNat_lowered (n : UInt16) : (lowered n).toNat = n.toNat - 1 := by
  unfold lowered
  split
  · rename_i h
    subst h
    rfl
  · rename_i h
    have hpos : n.toNat ≠ 0 := fun h' => h (UInt16.toNat_inj.mp h')
    rw [UInt16.toNat_sub_of_le _ _ (by rw [UInt16.le_iff_toNat_le]; exact Nat.one_le_iff_ne_zero.mpr hpos)]
    rfl

theorem getD_foldl_modify {α : Type} (f : α → α) (p : Nat → Bool) (d : α) (hd : f d = d) (l : List Nat)
    (hl : l.Nodup) (a : Array α) (i : Nat) :
    (l.foldl (fun a j => if p j then a else a.modify j f) a).getD i d =
      if i ∈ l ∧ p i = false then f (a.getD i d) else a.getD i d := by
  induction l generalizing a with
  | nil => simp
  | cons j l ih =>
      obtain ⟨hj, hl⟩ := List.nodup_cons.mp hl
      rw [List.foldl_cons, ih hl]
      have hstep : (if p j then a else a.modify j f).getD i d =
          if i = j ∧ p i = false then f (a.getD i d) else a.getD i d := by
        by_cases hp : p j
        · rw [if_pos hp, if_neg]
          rintro ⟨rfl, hp'⟩
          rw [hp] at hp'
          exact absurd hp' (by simp)
        · rw [if_neg hp, Array.getD_eq_getD_getElem?, Array.getD_eq_getD_getElem?, Array.getElem?_modify]
          by_cases hij : j = i
          · subst hij
            cases a[j]? <;> simp [hp, hd]
          · rw [if_neg hij, if_neg fun h => hij h.1.symm]
      rw [hstep]
      by_cases hij : i = j
      · subst hij
        simp [hj]
      · simp [hij]

theorem getD_uncover (b : Block) (cover : Array UInt16) (i : Nat) :
    (uncover b cover).getD i 0 =
      if b.start ≤ i ∧ i ≤ b.last ∧ b.masked i = false then lowered (cover.getD i 0) else cover.getD i 0 := by
  have hmem : i ∈ List.range' b.start (b.last + 1 - b.start) ↔ b.start ≤ i ∧ i ≤ b.last := by
    rw [List.mem_range'_1]
    omega
  have hfold := getD_foldl_modify lowered b.masked 0 rfl _ (List.nodup_range' (s := b.start) (n := b.last + 1 - b.start))
    cover i
  simp only [hmem, and_assoc] at hfold
  exact hfold

theorem size_uncover (b : Block) (cover : Array UInt16) : (uncover b cover).size = cover.size := by
  unfold uncover
  induction List.range' b.start (b.last + 1 - b.start) generalizing cover with
  | nil => rfl
  | cons j l ih =>
      rw [List.foldl_cons, ih]
      split
      · rfl
      · exact Array.size_modify ..

theorem size_cover_struck : (c.struck x n mon).cover.size = mon.cover.size := by
  unfold struck
  split
  · exact size_uncover _ _
  · rfl

/-- A struck monitor counts the block no longer on the bytes that it depended on. -/
theorem toNat_cover_struck {i : Nat} :
    ((c.struck x n mon).cover.getD i 0).toNat =
      if x ∈ c.dependents n i then (mon.cover.getD i 0).toNat - 1 else (mon.cover.getD i 0).toNat := by
  unfold struck
  simp only [mem_dependents]
  by_cases howner : (c.block x).owner = some n
  · simp only [howner, if_true, true_and, Monitor.without, getD_uncover]
    split
    · exact toNat_lowered _
    · rfl
  · simp [howner]

end Struck

/-! ### What clearing keeps -/

section

variable (h : Arranged c) (hlive : (c.block id).live = true)
include h hlive

theorem part_owner (hx : c.Part id x) : ∃ m, (c.block x).owner = some m := by
  rcases hx with rfl | hx
  · exact live_iff.mp hlive
  · exact live_iff.mp (h.paired.live x id (h.paired.symm id x hx))

/-- The parts of a block are told apart from all others by either of them. -/
theorem part_companion {y : BlockId} (hy : (c.block x).companion = some y) : c.Part id x ↔ c.Part id y := by
  constructor
  · rintro (rfl | hx)
    · exact Or.inr hy
    · have hid := h.paired.symm id x hx
      rw [hy] at hid
      exact Or.inl (Option.some.inj hid)
  · rintro (rfl | hx)
    · exact Or.inr (h.paired.symm x y hy)
    · have hid := h.paired.symm id y hx
      rw [h.paired.symm x y hy] at hid
      exact Or.inl (Option.some.inj hid)

theorem mem_bucket_clearBlock (n : MonitorId) (i : Nat) (x : BlockId) :
    x ∈ ((c.clearBlock id).monitor n).bucket i ↔
      ¬c.Part id x ∧ (c.block x).owner = some n ∧ (c.block x).bucket = i := by
  have hc := h.clearable hlive
  rw [hc.monitor_clearBlock]
  cases ho : (c.block id).companion with
  | none =>
      dsimp only
      rw [mem_bucket_struck (h.registry.nodup n i), h.registry.mem_bucket]
      simp only [Part, ho]
      constructor
      · rintro ⟨hx, hne⟩
        refine ⟨?_, hx⟩
        rintro (rfl | hx')
        · exact hne ⟨rfl, hx⟩
        · exact absurd hx' (by simp)
      · rintro ⟨hne, hx⟩
        exact ⟨hx, fun h' => hne (Or.inl h'.1)⟩
  | some o =>
      dsimp only
      rw [mem_bucket_struck (nodup_bucket_struck (h.registry.nodup n i)), mem_bucket_struck (h.registry.nodup n i),
        h.registry.mem_bucket]
      simp only [Part, ho, Option.some.injEq]
      constructor
      · rintro ⟨⟨hx, hne⟩, hne'⟩
        refine ⟨?_, hx⟩
        rintro (rfl | rfl)
        · exact hne' ⟨rfl, hx⟩
        · exact hne ⟨rfl, hx⟩
      · rintro ⟨hne, hx⟩
        exact ⟨⟨hx, fun h' => hne (Or.inr h'.1.symm)⟩, fun h' => hne (Or.inl h'.1)⟩

/-- A set of blocks without the parts of a cleared one. -/
theorem card_filter_not_part (S : Finset BlockId) (f : Monitor → Nat) (n : MonitorId)
    (hstruck : ∀ x mon, c.Part id x → f (c.struck x n mon) = if x ∈ S then f mon - 1 else f mon)
    (hcard : f (c.monitor n) = S.card) : f ((c.clearBlock id).monitor n) = {x ∈ S | ¬c.Part id x}.card := by
  have hc := h.clearable hlive
  have herase : ∀ (T : Finset BlockId) x, (if x ∈ T then T.card - 1 else T.card) = (T.erase x).card :=
    fun T x => Finset.card_erase_eq_ite.symm
  rw [hc.monitor_clearBlock, hstruck id _ (c.part_self id)]
  cases ho : (c.block id).companion with
  | none =>
      dsimp only
      rw [hcard, herase]
      congr 1
      ext x
      simp [Part, ho, and_comm]
  | some o =>
      have hne := hc.partner_ne o ho
      have hmem : id ∈ S ↔ id ∈ S.erase o := by simp [Ne.symm hne]
      dsimp only
      rw [hstruck o _ (Or.inr ho), hcard, herase]
      simp only [hmem]
      rw [herase]
      congr 1
      ext x
      simp [Part, ho, eq_comm, and_comm, and_assoc]

theorem owned_clearBlock (n : MonitorId) : (c.clearBlock id).owned n = {x ∈ c.owned n | ¬c.Part id x} := by
  ext x
  rw [Finset.mem_filter, mem_owned, mem_owned, (h.clearable hlive).owner_clearBlock]
  split
  · rename_i hx
    simp [hx]
  · rename_i hx
    simp [hx]

theorem dependents_clearBlock (n : MonitorId) (i : Nat) :
    (c.clearBlock id).dependents n i = {x ∈ c.dependents n i | ¬c.Part id x} := by
  have hc := h.clearable hlive
  ext x
  rw [Finset.mem_filter, mem_dependents, mem_dependents, hc.owner_clearBlock, hc.start_clearBlock, hc.last_clearBlock]
  by_cases hx : c.Part id x
  · simp [hx]
  · have hmask : ((c.clearBlock id).block x).masked i = (c.block x).masked i := by
      have hm := congrArg Block.mask (hc.unlinked_clearBlock_of_not_part hx)
      simp only [Block.unlinked_mask] at hm
      rw [Block.masked, hm, Block.masked]
    simp [hx, hmask]

theorem activeBlocks_clearBlock (n : MonitorId) :
    ((c.clearBlock id).monitor n).activeBlocks = ((c.clearBlock id).owned n).card := by
  rw [owned_clearBlock h hlive]
  refine card_filter_not_part h hlive (c.owned n) (fun mon => mon.activeBlocks) n (fun x mon _ => ?_)
    (h.registry.active n)
  simp only [mem_owned]
  exact activeBlocks_struck

theorem core_monitor_clearBlock (n : MonitorId) : ((c.clearBlock id).monitor n).core = (c.monitor n).core := by
  rw [(h.clearable hlive).monitor_clearBlock, core_struck]
  cases (c.block id).companion with
  | none => rfl
  | some o => exact core_struck

theorem companion_of_clearBlock {a b : BlockId} (hab : ((c.clearBlock id).block a).companion = some b) :
    ¬c.Part id a ∧ (c.block a).companion = some b := by
  rw [(h.clearable hlive).companion_clearBlock] at hab
  split at hab
  · exact absurd hab (by simp)
  · rename_i ha
    exact ⟨ha, hab⟩

theorem owner_of_clearBlock {m : MonitorId} (hx : ((c.clearBlock id).block x).owner = some m) : (c.block x).owner = some m := by
  rw [(h.clearable hlive).owner_clearBlock] at hx
  split at hx
  · exact absurd hx (by simp)
  · exact hx

theorem Registry.clearBlock : Registry (c.clearBlock id) := by
  have hc := h.clearable hlive
  have hr := h.registry
  have hsame := ShellSame.clearBlock c id
  have hlive' : ∀ x, ((c.clearBlock id).block x).live = true → (c.block x).live = true :=
    fun x hx => ((hc.live_clearBlock x).mp hx).2
  have howner : ∀ x m, ((c.clearBlock id).block x).owner = some m → (c.block x).owner = some m := fun x m hx =>
    owner_of_clearBlock h hlive hx
  have hinstalled : ∀ m, ((c.clearBlock id).monitor m).installed = (c.monitor m).installed := fun m =>
    Monitor.installed_eq_of_core (core_monitor_clearBlock h hlive m)
  refine ⟨fun m hm => ?_, fun m i x => ?_, fun m i => ?_, fun x m hx => ?_, fun x hx => ?_, fun x hx => ?_,
    fun x hx hord => ?_, fun x hx hcomp => ?_, fun a b m ha hb hca hcb hstart => ?_, fun m => ?_⟩
  · rw [hsame.settings, hc.monitor_clearBlock, size_buckets_struck, ← hr.bucketCount m (hsame.monitorsSize ▸ hm)]
    cases (c.block id).companion with
    | none => rfl
    | some o => exact size_buckets_struck
  · rw [mem_bucket_clearBlock h hlive, hc.owner_clearBlock, hc.bucket_clearBlock]
    split
    · rename_i hx
      simp [hx]
    · rename_i hx
      simp [hx]
  · rw [hc.monitor_clearBlock]
    refine nodup_bucket_struck ?_
    cases (c.block id).companion with
    | none => exact hr.nodup m i
    | some o => exact nodup_bucket_struck (hr.nodup m i)
  · rw [hinstalled]
    exact hr.installed x m (howner x m hx)
  · rw [hc.start_clearBlock, hc.last_clearBlock]
    exact hr.start_le x (hlive' x hx)
  · rw [hc.last_clearBlock]
    exact hr.last_lt x (hlive' x hx)
  · rw [hc.bucket_clearBlock, hc.start_clearBlock, bucketOf, hsame.settings]
    exact hr.ordinary x (hlive' x hx) (hc.isCompanion_clearBlock x ▸ hord)
  · rw [hc.start_clearBlock]
    exact hr.companion x (hlive' x hx) (hc.isCompanion_clearBlock x ▸ hcomp)
  · rw [hc.isCompanion_clearBlock] at hca hcb
    rw [hc.start_clearBlock, hc.start_clearBlock] at hstart
    exact hr.start_inj a b m (howner a m ha) (howner b m hb) hca hcb hstart
  · exact activeBlocks_clearBlock h hlive m

theorem Paired.clearBlock : Paired (c.clearBlock id) := by
  have hc := h.clearable hlive
  have hp := h.paired
  refine ⟨fun a b hab => ?_, fun a b hab => ?_, fun a b hab => ?_, fun b hb hcomp => ?_⟩
  · obtain ⟨ha, hab⟩ := companion_of_clearBlock h hlive hab
    rw [hc.companion_clearBlock, if_neg fun hb => ha ((part_companion h hlive hab).mpr hb)]
    exact hp.symm a b hab
  · obtain ⟨ha, hab⟩ := companion_of_clearBlock h hlive hab
    exact (hc.live_clearBlock a).mpr ⟨ha, hp.live a b hab⟩
  · obtain ⟨-, hab⟩ := companion_of_clearBlock h hlive hab
    rw [hc.isCompanion_clearBlock, hc.isCompanion_clearBlock]
    exact hp.kind a b hab
  · obtain ⟨hb, hblive⟩ := (hc.live_clearBlock b).mp hb
    rw [hc.isCompanion_clearBlock] at hcomp
    rw [hc.companion_clearBlock, if_neg hb]
    exact hp.partner b hblive hcomp

theorem Adjacent.clearBlock (hadj : Adjacent c) : Adjacent (c.clearBlock id) := by
  have hpage : ∀ m, ((c.clearBlock id).monitor m).page = (c.monitor m).page := fun m =>
    Monitor.page_eq_of_core (core_monitor_clearBlock h hlive m)
  intro a b m n hab ha hm hn
  obtain ⟨-, hab⟩ := companion_of_clearBlock h hlive hab
  rw [(h.clearable hlive).isCompanion_clearBlock] at ha
  rw [hpage, hpage]
  exact hadj a b m n hab ha (owner_of_clearBlock h hlive hm) (owner_of_clearBlock h hlive hn)

theorem runnable_clearBlock : (c.clearBlock id).Runnable x ↔ ¬c.Part id x ∧ c.Runnable x := by
  have hc := h.clearable hlive
  rw [Runnable, hc.live_clearBlock, hc.isCompanion_clearBlock, Runnable, and_assoc]

/-- The part that is a companion goes to the front of the free descriptors; spans stay as they are. -/
theorem Pool.clearBlock {next : BlockId → Option BlockId} {size : BlockId → Nat} {spans free : List BlockId}
    {loose : Option BlockId} (hp : Pool c next size spans free loose) :
    ∃ free', Pool (c.clearBlock id) next size spans free' loose := by
  have hc := h.clearable hlive
  have hsame := ShellSame.clearBlock c id
  have hdead : ∀ x ∈ free, ¬c.Part id x := by
    intro x hx hpart
    obtain ⟨m, hm⟩ := part_owner h hlive hpart
    have := hp.free_dead x hx
    rw [Block.live, hm] at this
    exact absurd this (by simp)
  -- Whatever is pushed is a part of the block and a companion, and such parts are pushed.
  have hpush : ∀ pushed, (∀ x, x ∈ pushed ↔ c.Part id x ∧ (c.block x).isCompanion = true) →
      Path (fun b => ((c.clearBlock id).block b).freeNext) (c.clearBlock id).freeHead (pushed ++ free) none →
      Pool (c.clearBlock id) next size spans (pushed ++ free) loose := by
    intro pushed hpushed hpath
    refine ⟨hp.spanPath, hpath, fun x hx hmem => ?_, fun x hx => ?_, fun x hx => ?_, fun x hx => ?_, fun x hx => ?_,
      fun x hx => ?_, fun x hx hloose => ?_, ?_, ?_, ?_⟩
    · rcases List.mem_append.mp hmem with hmem | hmem
      · have := ((hpushed x).mp hmem).2
        rw [hp.ordinary x hx] at this
        exact absurd this (by simp)
      · exact hp.apart x hx hmem
    · rw [hsame.size]
      exact hp.spans_lt x hx
    · rw [hsame.size]
      rcases List.mem_append.mp hx with hx | hx
      · obtain ⟨m, hm⟩ := part_owner h hlive ((hpushed x).mp hx).1
        exact lt_size_of_live (live_iff.mpr ⟨m, hm⟩)
      · exact hp.free_lt x hx
    · rw [Bool.eq_false_iff, Ne, hc.live_clearBlock]
      rcases List.mem_append.mp hx with hx | hx
      · exact fun h' => h'.1 ((hpushed x).mp hx).1
      · exact fun h' => absurd (hp.free_dead x hx) (by simp [h'.2])
    · rw [hc.isCompanion_clearBlock]
      exact hp.ordinary x hx
    · exact hp.span_of_live x ((runnable_clearBlock h hlive).mp hx).2
    · rw [hsame.size] at hx
      rw [hc.live_clearBlock, hc.isCompanion_clearBlock]
      rcases hp.placed x hx hloose with hspan | hfree | hcomp
      · exact .inl hspan
      · exact .inr (.inl (List.mem_append_right _ hfree))
      · by_cases hpart : c.Part id x
        · exact .inr (.inl (List.mem_append_left _ ((hpushed x).mpr ⟨hpart, hcomp.2⟩)))
        · exact .inr (.inr ⟨⟨hpart, hcomp.1⟩, hcomp.2⟩)
    · rw [hsame.active]
      exact hp.active
    · rw [hsame.blocksStart, hsame.settings]
      simp only [hc.codeStart_clearBlock]
      exact hp.tiled
    · rw [hsame.active, hsame.blocksStart, hsame.settings, hc.codeStart_clearBlock]
      exact hp.cursor
  have hold : ∀ x ∈ free, ((c.clearBlock id).block x).freeNext = (c.block x).freeNext := by
    intro x hx
    rw [hc.freeNext_clearBlock, if_neg fun h' => hdead x hx h'.1]
  have hpath : Path (fun b => ((c.clearBlock id).block b).freeNext) c.freeHead free none := hp.freePath.congr hold
  have hone : ∀ x, c.Part id x → (c.block x).isCompanion = true → (∀ y, c.Part id y → (c.block y).isCompanion = true → y = x) →
      (c.clearBlock id).freeHead = some x → Pool (c.clearBlock id) next size spans ([x] ++ free) loose := by
    intro x hx hcomp honly hhead
    have hnext : ((c.clearBlock id).block x).freeNext = c.freeHead := by
      rw [hc.freeNext_clearBlock, if_pos ⟨hx, hcomp⟩]
    refine hpush [x] (fun y => ?_) ⟨hhead, ?_⟩
    · rw [List.mem_singleton]
      exact ⟨fun hy => hy ▸ ⟨hx, hcomp⟩, fun hy => honly y hy.1 hy.2⟩
    · dsimp only
      rw [hnext]
      exact hpath
  have hhead := hc.freeHead_clearBlock
  cases hcomp : (c.block id).isCompanion with
  | true =>
      rw [hcomp, if_pos rfl] at hhead
      refine ⟨_, hone id (c.part_self id) hcomp (fun y hy hycomp => ?_) hhead⟩
      rcases hy with rfl | ho
      · rfl
      · rw [hc.partner_kind y ho, hcomp] at hycomp
        exact absurd hycomp (by simp)
  | false =>
      rw [hcomp, if_neg (by simp)] at hhead
      cases ho : (c.block id).companion with
      | none =>
          rw [ho] at hhead
          refine ⟨[] ++ free, hpush [] (fun y => iff_of_false (by simp) ?_) (by rw [hhead]; exact hpath)⟩
          rintro ⟨rfl | hy, hycomp⟩
          · rw [hcomp] at hycomp
            exact absurd hycomp (by simp)
          · rw [ho] at hy
            exact absurd hy (by simp)
      | some o =>
          rw [ho] at hhead
          have hkind := hc.partner_kind o ho
          rw [hcomp] at hkind
          refine ⟨_, hone o (Or.inr ho) hkind (fun y hy hycomp => ?_) hhead⟩
          rcases hy with rfl | hy
          · rw [hcomp] at hycomp
            exact absurd hycomp (by simp)
          · exact Option.some.inj (hy.symm.trans ho)

theorem Watches.clearBlock (hw : Watches c) : Watches (c.clearBlock id) := by
  have hsame := ShellSame.clearBlock c id
  exact hw.congr hsame.byPage hsame.freeMonitors hsame.newest hsame.oldest hsame.monitorsSize
    (core_monitor_clearBlock h hlive)

theorem Arranged.clearBlock : Arranged (c.clearBlock id) :=
  ⟨Registry.clearBlock h hlive, Paired.clearBlock h hlive⟩

/-- Clearing a counted block lowers exactly the counts of the bytes it depended on. -/
theorem Census.clearBlock {E : Finset BlockId} (hcensus : Census c E) (hE : ∀ x, c.Part id x → x ∉ E) :
    Census (c.clearBlock id) E := by
  have hinstalled : ∀ m, ((c.clearBlock id).monitor m).installed = (c.monitor m).installed := fun m =>
    Monitor.installed_eq_of_core (core_monitor_clearBlock h hlive m)
  refine ⟨fun m hm => ?_, fun m hm i hi => ?_⟩
  · rw [(h.clearable hlive).monitor_clearBlock, size_cover_struck, ← hcensus.size m (hinstalled m ▸ hm)]
    cases (c.block id).companion with
    | none => rfl
    | some o => exact size_cover_struck
  · rw [card_filter_not_part h hlive (c.dependents m i \ E) (fun mon => (mon.cover.getD i 0).toNat) m
      (fun x mon hx => ?_) (hcensus.count m (hinstalled m ▸ hm) i hi)]
    · rw [dependents_clearBlock h hlive]
      congr 1
      ext x
      simp only [Finset.mem_filter, Finset.mem_sdiff]
      tauto
    · rw [toNat_cover_struck]
      simp [hE x hx]

theorem Exact.clearBlock {E : Finset BlockId} (hexact : Exact c E) (hE : ∀ x, c.Part id x → x ∉ E) : Exact (c.clearBlock id) E :=
  ⟨hexact.adjacent.clearBlock h hlive, hexact.census.clearBlock h hlive hE⟩

/-- Links from and to the block are severed; the part of it that is a companion has none. -/
theorem Linked.clearBlock (hlinked : Linked c c.Runnable) : Linked (c.clearBlock id) (c.clearBlock id).Runnable := by
  have hcleared := (h.clearable hlive).linked_clearBlock hlinked fun x hx => hx.2
  exact hcleared.mono fun x hx => (runnable_clearBlock h hlive).mpr ⟨hx.2, hx.1⟩

theorem Layout.clearBlock {loose : Option BlockId} (hlayout : Layout c loose) : Layout (c.clearBlock id) loose := by
  obtain ⟨spans, free, hp⟩ := hlayout.pool
  obtain ⟨free', hp'⟩ := hp.clearBlock h hlive
  refine ⟨⟨spans, free', ?_⟩, hlayout.linked.clearBlock h hlive⟩
  simp only [(h.clearable hlive).arenaNext_clearBlock, (h.clearable hlive).codeSize_clearBlock]
  exact hp'

end

theorem Orderly.clearBlock (h : Orderly c) (hlive : (c.block id).live = true) : Orderly (c.clearBlock id) := by
  refine ⟨h.toArranged.clearBlock hlive, ?_, h.watches.clearBlock h.toArranged hlive⟩
  rw [(ShellSame.clearBlock c id).settings]
  exact h.valid

/-- A block stands where clearing looks for it. -/
theorem Registry.listed (h : Registry c) (x : BlockId) : Clearable.Listed c x :=
  fun n hn => (h.mem_bucket n _ x).mpr ⟨hn, rfl⟩

theorem Sound.clearBlock (h : Sound c) (hlive : (c.block id).live = true) : Sound (c.clearBlock id) := by
  refine ⟨h.toOrderly.clearBlock hlive, h.layout.clearBlock h.toArranged hlive, ?_⟩
  rw [(h.clearable hlive).anomalies_clearBlock h.layout.linked (fun x hx => hx.2) fun x _ => h.registry.listed x]
  exact h.calm

end Recompiler.Cache
