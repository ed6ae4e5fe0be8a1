import Recompiler.Proofs.Cache.Enlist

/-! The empty cache: no page is watched, one span has all the room, and the other descriptors are free. -/

namespace Recompiler.Cache

variable {s : Settings}

theorem block_create (s : Settings) (arenaBase blocksStart : Nat) (stubs : PerSlot Nat) (i : BlockId) :
    (create s arenaBase blocksStart stubs).block i =
      if i < s.blockCount then
        if i = 0 then { codeStart := blocksStart, codeSize := s.cacheSize, bucket := 1 }
        else { freeNext := if i + 1 < s.blockCount then some (i + 1) else none }
      else {} := by
  unfold block create
  dsimp only
  by_cases hi : i < s.blockCount
  · rw [if_pos hi, Array.getD_eq_getD_getElem?, Array.getElem?_ofFn, dif_pos hi]
    rfl
  · rw [if_neg hi, Array.getD_eq_getD_getElem?, Array.getElem?_ofFn, dif_neg hi]
    rfl

theorem monitor_create (s : Settings) (arenaBase blocksStart : Nat) (stubs : PerSlot Nat) (m : MonitorId) :
    (create s arenaBase blocksStart stubs).monitor m =
      { buckets := if m < s.codePages then Array.replicate s.hashBuckets [] else #[] } := by
  unfold monitor create
  dsimp only
  rw [Array.getD_eq_getD_getElem?, Array.getElem?_replicate]
  split <;> rfl

/-- The free descriptors are those after the first. -/
theorem freePath_create (n k : Nat) (hn : n = k + 1) :
    Path (fun i => if i + 1 < n then some (i + 1) else none) (if 1 < n then some 1 else none) (List.range' 1 k) none := by
  suffices h : ∀ j start, n = start + j →
      Path (fun i => if i + 1 < n then some (i + 1) else none) (if start < n then some start else none) (List.range' start j) none by
    exact h k 1 (by omega)
  intro j
  induction j with
  | zero =>
      intro start hstart
      rw [if_neg (by omega)]
      rfl
  | succ j ih =>
      intro start hstart
      rw [if_pos (by omega), List.range'_succ]
      exact ⟨rfl, ih (start + 1) (by omega)⟩

/-- The empty link table sends every slot to its stub. -/
theorem linkEntry_create (s : Settings) (arenaBase blocksStart : Nat) (stubs : PerSlot Nat) {i : BlockId}
    (hi : i < s.blockCount) (k : Slot) : (create s arenaBase blocksStart stubs).linkEntry i k = stubs.get k := by
  have hblocks : (create s arenaBase blocksStart stubs).blocks.size = s.blockCount := Array.size_ofFn
  have htable : (create s arenaBase blocksStart stubs).linkTable.size = 2 * s.blockCount := Array.size_ofFn
  have hindex := tableIndex_lt (htable.trans (by rw [hblocks])) (hblocks.symm ▸ hi) k
  rw [htable] at hindex
  unfold linkEntry create
  dsimp only
  rw [Array.getD_eq_getD_getElem?, Array.getElem?_ofFn, dif_pos hindex, Option.getD_some]
  cases k with
  | first => rw [if_pos (by simp [Slot.index])]; rfl
  | second => rw [if_neg (by simp [Slot.index, Nat.add_mod])]; rfl

/-- No block of a new cache belongs to a page. -/
theorem owner_create (s : Settings) (arenaBase blocksStart : Nat) (stubs : PerSlot Nat) (x : BlockId) :
    ((create s arenaBase blocksStart stubs).block x).owner = none := by
  rw [block_create]
  split <;> [split; skip] <;> rfl

theorem linked_create (s : Settings) (arenaBase blocksStart : Nat) (stubs : PerSlot Nat) (P : BlockId → Prop) :
    Linked (create s arenaBase blocksStart stubs) P := by
  have hslot : ∀ x k, (create s arenaBase blocksStart stubs).linkSlot x k = {} := fun x k => by
    rw [linkSlot, block_create]
    split <;> [split; skip] <;> cases k <;> rfl
  have hsize : (create s arenaBase blocksStart stubs).blocks.size = s.blockCount := Array.size_ofFn
  refine ⟨?_, fun k => ⟨fun _ => [], fun b => ?_, fun a b => ?_, fun a _ => ?_⟩, fun a b k hab => ?_, fun a ha k => ?_⟩
  · rw [hsize]
    exact Array.size_ofFn
  · rw [hslot]
    rfl
  · simp [hslot]
  · rw [hslot]
  · rw [hslot] at hab
    exact absurd hab (by simp)
  · rw [linkEntry_create s arenaBase blocksStart stubs (hsize ▸ ha), hslot]
    rfl

theorem consistent_create (hs : s.Valid) (arenaBase blocksStart : Nat) (stubs : PerSlot Nat) :
    Consistent (create s arenaBase blocksStart stubs) ∅ := by
  have hcount := hs.facts.1
  have hblock := block_create s arenaBase blocksStart stubs
  have howner := owner_create s arenaBase blocksStart stubs
  have hmonitor := monitor_create s arenaBase blocksStart stubs
  have hsize : (create s arenaBase blocksStart stubs).blocks.size = s.blockCount := Array.size_ofFn
  have hpage : ∀ page, (create s arenaBase blocksStart stubs).monitorOf page = none := fun page => by simp [monitorOf, create]
  have hmonitors : (create s arenaBase blocksStart stubs).monitors.size = s.codePages := by simp [create]
  have hfree : (create s arenaBase blocksStart stubs).freeMonitors = List.range s.codePages := rfl
  have hhead : (create s arenaBase blocksStart stubs).freeHead = if 1 < s.blockCount then some 1 else none := rfl
  have hvalid : (create s arenaBase blocksStart stubs).settings = s := rfl
  have hactive : (create s arenaBase blocksStart stubs).active = 0 := rfl
  have hstart : (create s arenaBase blocksStart stubs).blocksStart = blocksStart := rfl
  have hstats : (create s arenaBase blocksStart stubs).stats.anomalies = 0 := rfl
  have hlinked := linked_create s arenaBase blocksStart stubs (create s arenaBase blocksStart stubs).Runnable
  have hends : (create s arenaBase blocksStart stubs).newest = none ∧ (create s arenaBase blocksStart stubs).oldest = none :=
    ⟨rfl, rfl⟩
  generalize create s arenaBase blocksStart stubs = c at *
  have hlive : ∀ x, (c.block x).live = false := fun x => by rw [Block.live, howner]; rfl
  have hcompanion : ∀ x, (c.block x).companion = none := fun x => by rw [hblock]; split <;> [split; skip] <;> rfl
  have hinst : ∀ m, (c.monitor m).installed = false := fun m => by rw [hmonitor]
  have hbucket : ∀ m i, (c.monitor m).bucket i = [] := fun m i => by
    rw [hmonitor, Monitor.bucket]
    dsimp only
    rw [Array.getD_eq_getD_getElem?]
    split
    · rw [Array.getElem?_replicate]
      split <;> rfl
    · rfl
  refine ⟨⟨⟨⟨?_, ?_⟩, hvalid ▸ hs, ?_⟩, ⟨⟨[0], List.range' 1 (s.blockCount - 1), ?_⟩, hlinked⟩, hstats⟩, ?_, ?_⟩
  · refine ⟨fun m hm => ?_, by simp [hbucket, howner], by simp [hbucket], by simp [howner], by simp [hlive], by simp [hlive],
      by simp [hlive], by simp [hlive], by simp [howner], fun m => ?_⟩
    · rw [hmonitor, if_pos (hmonitors ▸ hm), Array.size_replicate, hvalid]
    · have howned : c.owned m = ∅ := Finset.eq_empty_iff_forall_notMem.mpr fun x hx => by simp [howner] at hx
      rw [hmonitor, howned, Finset.card_empty]
  · exact ⟨by simp [hcompanion], by simp [hcompanion], by simp [hcompanion], by simp [hlive]⟩
  · refine ⟨by simp [hpage, hinst], by simp [hinst], hfree ▸ List.nodup_range, fun m hm => ?_, by simp [hinst], ?_, ?_, ⟨fun _ => 0, ?_⟩,
      by simp [hends.1], by simp [hends.2]⟩
    · rw [hfree, List.mem_range] at hm
      exact hmonitors ▸ hm
    all_goals simp [hmonitor]
  · have hzero : c.block 0 = { codeStart := blocksStart, codeSize := s.cacheSize, bucket := 1 } := by
      rw [hblock, if_pos (Nat.pos_of_ne_zero hcount), if_pos rfl]
    have hmem : ∀ x : Nat, x ∈ List.range' 1 (s.blockCount - 1) → x < s.blockCount ∧ x ≠ 0 := fun x hx => by
      rw [List.mem_range'_1] at hx
      omega
    have hother : ∀ x ∈ List.range' 1 (s.blockCount - 1),
        (c.block x).freeNext = if x + 1 < s.blockCount then some (x + 1) else none := fun x hx => by
      rw [hblock, if_pos (hmem x hx).1, if_neg (hmem x hx).2]
    have hsizes := hs.sizes
    refine ⟨⟨rfl, congrArg Block.arenaNext hzero⟩, ?_, ?_, ?_, fun x hx => hsize ▸ (hmem x hx).1, fun x _ => hlive x, ?_,
      by simp [Runnable, hlive], fun x hx _ => ?_, by simp [hactive], ?_, ?_⟩
    · rw [hhead]
      exact (freePath_create s.blockCount (s.blockCount - 1) (by omega)).congr hother
    · simp [List.mem_range'_1]
    · simp [hsize, Nat.pos_of_ne_zero hcount]
    · simp [hzero, Block.isCompanion]
    · rw [hsize] at hx
      by_cases hx0 : x = 0
      · exact .inl (by simp [hx0])
      · exact .inr (.inl (List.mem_range'_1.mpr ⟨Nat.pos_of_ne_zero hx0, by omega⟩))
    · refine ⟨?_, ?_, ?_⟩
      all_goals dsimp only
      all_goals rw [hzero]
      · exact hstart.symm
      · dsimp only
        omega
      · rw [hvalid]
        rfl
    · rw [hactive, hzero, hstart, hvalid]
      dsimp only
      omega
  · exact fun a b k l hab => absurd hab (by simp [hcompanion])
  · exact ⟨by simp [hinst], by simp [hinst]⟩

end Recompiler.Cache
