import Recompiler.Proofs.Cache.Invalidate

/-! An upper bound for the write maps. A block whose first instruction cannot be fetched depends on a byte that was never
counted, so the write maps may miss blocks. They never count more blocks than there are: giving the bytes of a block back
lowers a count only where the block depended on the byte, and stops at zero. So the write map of a monitor without blocks
is blank, whatever happened to the page. -/

namespace Recompiler.Cache

variable {c c' : Cache} {m n : MonitorId} {id x : BlockId} {E : Finset BlockId} {U U' : Nat → Finset BlockId}

/-- No byte is counted more often than counted blocks depend on it. -/
structure Capped (c : Cache) (uncounted : Finset BlockId) : Prop where
  size : ∀ n, (c.monitor n).cover.size = pageSize
  le : ∀ n i, ((c.monitor n).cover.getD i 0).toNat ≤ (c.dependents n i \ uncounted).card

/-- No byte is counted more often than blocks depend on it for which this byte was counted. -/
structure CappedAt (c : Cache) (uncounted : Nat → Finset BlockId) : Prop where
  size : ∀ n, (c.monitor n).cover.size = pageSize
  le : ∀ n i, ((c.monitor n).cover.getD i 0).toNat ≤ (c.dependents n i \ uncounted i).card

theorem Capped.cappedAt (h : Capped c E) : CappedAt c fun _ => E :=
  ⟨h.size, h.le⟩

theorem CappedAt.capped (h : CappedAt c fun _ => E) : Capped c E :=
  ⟨h.size, h.le⟩

/-- The write map of a page counts the blocks that depend on each byte. -/
def Tallied (c : Cache) (n : MonitorId) : Prop :=
  ∀ i < pageSize, ((c.monitor n).cover.getD i 0).toNat = (c.dependents n i).card

theorem getD_noCover (i : Nat) : noCover.getD i 0 = 0 := by
  rw [noCover, Array.getD_eq_getD_getElem?, Array.getElem?_replicate]
  split <;> rfl

theorem Tallied.congr (h : Tallied c n) (hclaim : ∀ x, (c'.block x).claim = (c.block x).claim)
    (hcover : (c'.monitor n).cover = (c.monitor n).cover) : Tallied c' n := by
  intro i hi
  rw [hcover, dependents_congr hclaim]
  exact h i hi

namespace CappedAt

/-- Only owners, ranges and masks of blocks and the write maps play a part. -/
theorem of_dependents (h : CappedAt c U) (hdep : ∀ n i, c'.dependents n i = c.dependents n i)
    (hcover : ∀ n, (c'.monitor n).cover = (c.monitor n).cover) : CappedAt c' U := by
  refine ⟨fun n => ?_, fun n i => ?_⟩
  · rw [hcover]
    exact h.size n
  · rw [hcover, hdep]
    exact h.le n i

theorem congr (h : CappedAt c U) (hclaim : ∀ x, (c'.block x).claim = (c.block x).claim)
    (hcover : ∀ n, (c'.monitor n).cover = (c.monitor n).cover) : CappedAt c' U :=
  h.of_dependents (dependents_congr hclaim) hcover

theorem cosmetic (h : CappedAt c U) (hc : Cosmetic c c') : CappedAt c' U :=
  h.congr (fun x => by rw [hc.block]) fun n => Monitor.map_eq_of_steady (hc.steady n) Monitor.cover fun _ => rfl

/-- Blocks that are counted after all leave room. -/
theorem mono (h : CappedAt c U) (hU : ∀ i, U' i ⊆ U i) : CappedAt c U' :=
  ⟨h.size, fun n i => (h.le n i).trans (Finset.card_le_card (Finset.sdiff_subset_sdiff subset_rfl (hU i)))⟩

/-- A monitor without blocks has a blank write map. -/
theorem cover_eq (h : CappedAt c U) (hnone : ∀ x, (c.block x).owner ≠ some n) : (c.monitor n).cover = noCover := by
  have hempty : ∀ i, c.dependents n i = ∅ := fun i =>
    Finset.eq_empty_iff_forall_notMem.mpr fun x hx => hnone x (mem_dependents.mp hx).1
  refine Array.ext ((h.size n).trans Array.size_replicate.symm) fun i hi hi' => ?_
  have hzero := h.le n i
  rw [hempty, Finset.empty_sdiff, Finset.card_empty, Nat.le_zero, Array.getD_eq_getD_getElem?,
    Array.getElem?_eq_getElem hi, Option.getD_some] at hzero
  rw [UInt16.toNat_inj.mp (hzero.trans UInt16.toNat_zero.symm)]
  exact (Array.getElem_replicate ..).symm

/-- A monitor may start with a blank write map. -/
theorem blank (h : CappedAt c U) (hdep : ∀ n i, c'.dependents n i = c.dependents n i) (hblank : (c'.monitor m).cover = noCover)
    (hother : ∀ n, n ≠ m → (c'.monitor n).cover = (c.monitor n).cover) : CappedAt c' U := by
  refine ⟨fun n => ?_, fun n i => ?_⟩
  · by_cases hn : n = m
    · rw [hn, hblank]
      exact Array.size_replicate
    · rw [hother n hn]
      exact h.size n
  · by_cases hn : n = m
    · rw [hn, hblank, getD_noCover]
      exact Nat.zero_le _
    · rw [hother n hn, hdep]
      exact h.le n i

end CappedAt

/-! ### Clearing -/

section

variable (h : Arranged c) (hlive : (c.block id).live = true)
include h hlive

/-- Clearing a block takes one off a count for each of its parts that depended on the byte. -/
theorem toNat_cover_clearBlock (n : MonitorId) (i : Nat) :
    (((c.clearBlock id).monitor n).cover.getD i 0).toNat =
      ((c.monitor n).cover.getD i 0).toNat - {x ∈ c.dependents n i | c.Part id x}.card := by
  have hc := h.clearable hlive
  rw [hc.monitor_clearBlock, toNat_cover_struck]
  cases ho : (c.block id).companion with
  | none =>
      dsimp only
      generalize c.dependents n i = S
      have hpart : {x ∈ S | c.Part id x} = if id ∈ S then {id} else ∅ := by
        ext x
        rw [Finset.mem_filter, Part, ho]
        split <;> simp <;> grind
      rw [hpart]
      split <;> rfl
  | some o =>
      have hne := hc.partner_ne o ho
      dsimp only
      rw [toNat_cover_struck]
      generalize c.dependents n i = S
      have hpart : {x ∈ S | c.Part id x} = (if id ∈ S then {id} else ∅) ∪ if o ∈ S then {o} else ∅ := by
        ext x
        rw [Finset.mem_filter, Part, ho, Finset.mem_union]
        split <;> split <;> simp <;> grind
      have hdisjoint : Disjoint (if id ∈ S then ({id} : Finset BlockId) else ∅) (if o ∈ S then {o} else ∅) := by
        split <;> split <;> simp [Ne.symm hne]
      rw [hpart, Finset.card_union_of_disjoint hdisjoint, Nat.add_comm, Nat.sub_add_eq]
      split <;> split <;> rfl

theorem size_cover_clearBlock (n : MonitorId) : ((c.clearBlock id).monitor n).cover.size = (c.monitor n).cover.size := by
  rw [(h.clearable hlive).monitor_clearBlock, size_cover_struck]
  cases (c.block id).companion with
  | none => rfl
  | some o => exact size_cover_struck

theorem CappedAt.clearBlock (hcap : CappedAt c U) : CappedAt (c.clearBlock id) U := by
  refine ⟨fun n => (size_cover_clearBlock h hlive n).trans (hcap.size n), fun n i => ?_⟩
  have hle := hcap.le n i
  have hsub : c.dependents n i \ U i ⊆
      ({x ∈ c.dependents n i | ¬c.Part id x} \ U i) ∪ {x ∈ c.dependents n i | c.Part id x} := by
    intro x hx
    obtain ⟨hdep, hU⟩ := Finset.mem_sdiff.mp hx
    rw [Finset.mem_union, Finset.mem_sdiff, Finset.mem_filter, Finset.mem_filter]
    by_cases hpart : c.Part id x
    · exact .inr ⟨hdep, hpart⟩
    · exact .inl ⟨⟨hdep, hpart⟩, hU⟩
  have hcard := (Finset.card_le_card hsub).trans (Finset.card_union_le _ _)
  rw [toNat_cover_clearBlock h hlive, dependents_clearBlock h hlive]
  omega

theorem Tallied.clearBlock (ht : Tallied c n) : Tallied (c.clearBlock id) n := by
  intro i hi
  have hsplit : {x ∈ c.dependents n i | c.Part id x}.card + {x ∈ c.dependents n i | ¬c.Part id x}.card =
      (c.dependents n i).card := Finset.card_filter_add_card_filter_not _
  have hcount := ht i hi
  rw [toNat_cover_clearBlock h hlive, dependents_clearBlock h hlive]
  omega

/-- Clearing leaves spans where they are. -/
theorem place_clearBlock (x : BlockId) : ((c.clearBlock id).block x).place = (c.block x).place := by
  have hc := h.clearable hlive
  rw [Block.place, Block.place, hc.codeStart_clearBlock, hc.codeSize_clearBlock, hc.arenaNext_clearBlock]

end

namespace Emptying

variable (h : Emptying m c c')
include h

theorem capped (hs : Arranged c) (hcap : CappedAt c U) : CappedAt c' U := by
  induction h with
  | refl c => exact hcap
  | clear hid _ ih =>
      have hlive := live_iff.mpr ⟨m, hid⟩
      exact ih (hs.clearBlock hlive) (hcap.clearBlock hs hlive)

theorem tallied (hs : Arranged c) (ht : Tallied c n) : Tallied c' n := by
  induction h with
  | refl c => exact ht
  | clear hid _ ih =>
      have hlive := live_iff.mpr ⟨m, hid⟩
      exact ih (hs.clearBlock hlive) (ht.clearBlock hs hlive)

theorem place (hs : Arranged c) (x : BlockId) : (c'.block x).place = (c.block x).place := by
  induction h with
  | refl c => rfl
  | clear hid _ ih =>
      have hlive := live_iff.mpr ⟨m, hid⟩
      exact (ih (hs.clearBlock hlive)).trans (place_clearBlock hs hlive x)

/-- Only the blocks of the monitor and their other parts go. -/
theorem spared (hs : Arranged c) (hx : (c.block x).live = true)
    (hother : ∀ y, (c.block y).owner = some m → ¬c.Part y x) : (c'.block x).live = true := by
  induction h with
  | refl c => exact hx
  | @clear c c' id hid _ ih =>
      have hlive := live_iff.mpr ⟨m, hid⟩
      have hc := hs.clearable hlive
      refine ih (hs.clearBlock hlive) ((hc.live_clearBlock x).mpr ⟨hother id hid, hx⟩) fun y hy => ?_
      have hcore := (Shrinks.clearBlock hs hlive).core y (live_iff.mpr ⟨m, hy⟩)
      rw [Part, Block.companion_eq_of_core hcore]
      exact hother y (Block.owner_eq_of_core hcore ▸ hy)

end Emptying

end Recompiler.Cache
