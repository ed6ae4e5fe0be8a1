import Recompiler.Proofs.Address
import Recompiler.Proofs.Cache.Clearing

/-! Invalidation. It clears blocks of one page, from the highest bucket down, and stops as soon as the write map
shows no code in the range. Whatever is left on the page then either does not meet the range or reads the bytes of
the range when it runs. -/

namespace Recompiler.Cache

/-- The second cache came from the first by clearing blocks: those that are left are the same blocks. -/
structure Shrinks (c c' : Cache) : Prop where
  same : ShellSame c c'
  core : ∀ x, (c'.block x).live = true → (c'.block x).core = (c.block x).core
  monitor : ∀ m, (c'.monitor m).core = (c.monitor m).core

namespace Shrinks

variable {c c' c'' : Cache}

theorem refl (c : Cache) : Shrinks c c :=
  ⟨.refl c, fun _ _ => rfl, fun _ => rfl⟩

theorem live (h : Shrinks c c') {x : BlockId} (hx : (c'.block x).live = true) : (c.block x).live = true := by
  rwa [Block.live_eq_of_core (h.core x hx)] at hx

theorem trans (h : Shrinks c c') (h' : Shrinks c' c'') : Shrinks c c'' where
  same := h.same.trans h'.same
  core x hx := (h'.core x hx).trans (h.core x (h'.live hx))
  monitor m := (h'.monitor m).trans (h.monitor m)

theorem clearBlock (h : Arranged c) {id : BlockId} (hlive : (c.block id).live = true) : Shrinks c (c.clearBlock id) where
  same := .clearBlock c id
  core x hx := Block.core_eq_of_unlinked_eq
    ((h.clearable hlive).unlinked_clearBlock_of_not_part (((h.clearable hlive).live_clearBlock x).mp hx).1)
  monitor := core_monitor_clearBlock h hlive

end Shrinks

/-- The second cache came from the first by clearing blocks of a monitor one after the other. -/
inductive Emptying (m : MonitorId) : Cache → Cache → Prop where
  | refl (c : Cache) : Emptying m c c
  | clear {c c' : Cache} {id : BlockId} (hid : (c.block id).owner = some m) (h : Emptying m (c.clearBlock id) c') :
      Emptying m c c'

/-- No uncounted block is a part of a block of the monitor. -/
def Counted (c : Cache) (m : MonitorId) (E : Finset BlockId) : Prop :=
  ∀ x y, (c.block x).owner = some m → c.Part x y → y ∉ E

variable {c c' : Cache} {id x : BlockId} {E : Finset BlockId} {m : MonitorId}

theorem Counted.empty (c : Cache) (m : MonitorId) : Counted c m ∅ :=
  fun _ _ _ _ => Finset.notMem_empty _

/-- Blocks that are left are counted if they were. -/
theorem Counted.of_core (h : Counted c m E) (hcore : ∀ x, (c'.block x).owner = some m → (c'.block x).core = (c.block x).core) :
    Counted c' m E := by
  intro x y hx hpart
  refine h x y (Block.owner_eq_of_core (hcore x hx) ▸ hx) ?_
  rwa [Part, ← Block.companion_eq_of_core (hcore x hx)]

namespace Emptying

theorem trans {c'' : Cache} (h : Emptying m c c') (h' : Emptying m c' c'') : Emptying m c c'' := by
  induction h with
  | refl c => exact h'
  | clear hid _ ih => exact .clear hid (ih h')

theorem sound (h : Emptying m c c') (hs : Sound c) : Sound c' := by
  induction h with
  | refl c => exact hs
  | clear hid _ ih => exact ih (hs.clearBlock (live_iff.mpr ⟨m, hid⟩))

theorem arranged (h : Emptying m c c') (hs : Arranged c) : Arranged c' := by
  induction h with
  | refl c => exact hs
  | clear hid _ ih => exact ih (hs.clearBlock (live_iff.mpr ⟨m, hid⟩))

theorem shrinks (h : Emptying m c c') (hs : Arranged c) : Shrinks c c' := by
  induction h with
  | refl c => exact .refl c
  | clear hid _ ih =>
      have hlive := live_iff.mpr ⟨m, hid⟩
      exact (Shrinks.clearBlock hs hlive).trans (ih (hs.clearBlock hlive))

/-- Write maps stay right if all blocks that were cleared had been counted. -/
theorem census (h : Emptying m c c') (hs : Arranged c) (hE : Counted c m E) (hcensus : Census c E) : Census c' E := by
  induction h with
  | refl c => exact hcensus
  | clear hid _ ih =>
      have hlive := live_iff.mpr ⟨m, hid⟩
      refine ih (hs.clearBlock hlive) ?_ (hcensus.clearBlock hs hlive fun x hx => hE _ x hid hx)
      exact hE.of_core fun x hx => (Shrinks.clearBlock hs hlive).core x (live_iff.mpr ⟨m, hx⟩)

theorem adjacent (h : Emptying m c c') (hs : Arranged c) (hadj : Adjacent c) : Adjacent c' := by
  induction h with
  | refl c => exact hadj
  | clear hid _ ih =>
      have hlive := live_iff.mpr ⟨m, hid⟩
      exact ih (hs.clearBlock hlive) (hadj.clearBlock hs hlive)

theorem exact (h : Emptying m c c') (hs : Arranged c) (hE : Counted c m E) (he : Exact c E) : Exact c' E :=
  ⟨h.adjacent hs he.adjacent, h.census hs hE he.census⟩

/-- Blocks of other monitors go only if their other part is a block of this one. -/
theorem alone (h : Emptying m c c') (hs : Arranged c) (hx : (c.block x).live = true) (howner : (c.block x).owner ≠ some m)
    (hcomp : (c.block x).companion = none) : (c'.block x).live = true := by
  induction h with
  | refl c => exact hx
  | @clear c c' id hid _ ih =>
      have hlive := live_iff.mpr ⟨m, hid⟩
      have hstays : ((c.clearBlock id).block x).live = true := by
        refine ((hs.clearable hlive).live_clearBlock x).mpr ⟨?_, hx⟩
        rintro (rfl | hpart)
        · exact howner hid
        · rw [hs.paired.symm id x hpart] at hcomp
          exact absurd hcomp (by simp)
      have hcore := (Shrinks.clearBlock hs hlive).core x hstays
      refine ih (hs.clearBlock hlive) hstays ?_ ?_
      · rw [Block.owner_eq_of_core hcore]
        exact howner
      · rw [Block.companion_eq_of_core hcore]
        exact hcomp

end Emptying

/-- Of the two parts of a block one is in the first bucket of its monitor and the other is not. So clearing a block
leaves the other blocks of its bucket alone. -/
theorem Arranged.owner_clearBlock_of_bucket (h : Arranged c) (hlive : (c.block id).live = true)
    (hbucket : (c.block x).bucket = (c.block id).bucket) (hne : x ≠ id) :
    ((c.clearBlock id).block x).owner = (c.block x).owner := by
  have hc := h.clearable hlive
  rw [hc.owner_clearBlock, if_neg]
  rintro (hxid | hcomp)
  · exact hne hxid
  · have hkind := hc.partner_kind x hcomp
    rw [Block.isCompanion, hbucket, ← Block.isCompanion] at hkind
    cases hid : (c.block id).isCompanion <;> simp [hid] at hkind

/-! ### What goes, and the running block -/

/-- The running block was there before some blocks were cleared, and is not there afterwards. -/
def Lost (running : Option BlockId) (c c' : Cache) : Prop :=
  ∃ r, running = some r ∧ (c.block r).live = true ∧ (c'.block r).live = false

/-- A block of a monitor that meets a range, or the other part of such a block. -/
def Targeted (c : Cache) (m : MonitorId) (first last : Nat) (x : BlockId) : Prop :=
  ∃ id, (c.block id).owner = some m ∧ (c.block id).overlaps first last = true ∧ c.Part id x

section Lost

variable {c'' : Cache} {running : Option BlockId} {first last : Nat}

theorem not_lost_self (running : Option BlockId) (c : Cache) : ¬Lost running c c := by
  rintro ⟨r, -, hlive, hdead⟩
  rw [hlive] at hdead
  cases hdead

theorem lost_trans (h : Shrinks c c') (h' : Shrinks c' c'') :
    Lost running c c'' ↔ Lost running c c' ∨ Lost running c' c'' := by
  constructor
  · rintro ⟨r, hr, hlive, hdead⟩
    cases hmid : (c'.block r).live with
    | true => exact .inr ⟨r, hr, hmid, hdead⟩
    | false => exact .inl ⟨r, hr, hlive, hmid⟩
  · rintro (⟨r, hr, hlive, hdead⟩ | ⟨r, hr, hlive, hdead⟩)
    · refine ⟨r, hr, hlive, Bool.eq_false_iff.mpr fun hlive' => ?_⟩
      rw [h'.live hlive'] at hdead
      cases hdead
    · exact ⟨r, hr, h.live hlive, hdead⟩

/-- Clearing a block ends exactly its two parts. -/
theorem lost_clearBlock (h : Arranged c) (hlive : (c.block id).live = true) :
    Lost running c (c.clearBlock id) ↔ ∃ r, running = some r ∧ c.Part id r := by
  have hc := h.clearable hlive
  constructor
  · rintro ⟨r, hr, hrlive, hdead⟩
    refine ⟨r, hr, ?_⟩
    by_contra hpart
    rw [(hc.live_clearBlock r).mpr ⟨hpart, hrlive⟩] at hdead
    cases hdead
  · rintro ⟨r, hr, hpart⟩
    refine ⟨r, hr, live_iff.mpr (part_owner h hlive hpart), Bool.eq_false_iff.mpr fun hlive' => ?_⟩
    exact ((hc.live_clearBlock r).mp hlive').1 hpart

/-- What is left is targeted if it was. -/
theorem Targeted.of_shrinks (h : Shrinks c c') (ht : c'.Targeted m first last x) : c.Targeted m first last x := by
  obtain ⟨id, howner, hover, hpart⟩ := ht
  have hcore := h.core id (live_iff.mpr ⟨m, howner⟩)
  rw [Block.owner_eq_of_core hcore] at howner
  rw [Block.overlaps_eq_of_core hcore] at hover
  rw [Part, Block.companion_eq_of_core hcore] at hpart
  exact ⟨id, howner, hover, hpart⟩

end Lost

section InvalidateBlocks

variable {first last i : Nat} {running : Option BlockId}

/-- What clearing some blocks of a monitor for a range achieves on the blocks of a list. -/
structure Invalidated (m : MonitorId) (first last : Nat) (running : Option BlockId) (ids : List BlockId) (c : Cache)
    (hit : Bool) (c' : Cache) (hit' : Bool) : Prop where
  emptying : Emptying m c c'
  gone : ∀ id ∈ ids, (c'.block id).live = true → (c'.block id).overlaps first last = false
  targeted : ∀ x, (c.block x).live = true → (c'.block x).live = false → c.Targeted m first last x
  hit_iff : hit' = true ↔ hit = true ∨ Lost running c c'

theorem invalidateBlocks_spec (h : Arranged c) (first last : Nat) (running : Option BlockId) {ids : List BlockId}
    (hnodup : ids.Nodup) (hids : ∀ id ∈ ids, (c.block id).owner = some m ∧ (c.block id).bucket = i) (hit : Bool) :
    Invalidated m first last running ids c hit (invalidateBlocks first last running ids (hit, c)).2
      (invalidateBlocks first last running ids (hit, c)).1 := by
  induction ids generalizing c hit with
  | nil =>
      refine ⟨.refl c, by simp, fun x hlive hdead => ?_, (or_iff_left (not_lost_self running c)).symm⟩
      exact absurd (hlive.symm.trans hdead) (by simp)
  | cons id ids ih =>
      obtain ⟨hid, hnodup⟩ := List.nodup_cons.mp hnodup
      obtain ⟨howner, hbucket⟩ := hids id List.mem_cons_self
      have hlive : (c.block id).live = true := live_iff.mpr ⟨m, howner⟩
      have hrest := fun x hx => hids x (List.mem_cons_of_mem id hx)
      rw [invalidateBlocks, List.foldl_cons, ← invalidateBlocks]
      dsimp only
      by_cases hover : (c.block id).overlaps first last = true
      · rw [if_pos hover]
        have hrest' : ∀ x ∈ ids, ((c.clearBlock id).block x).owner = some m ∧ ((c.clearBlock id).block x).bucket = i := by
          intro x hx
          obtain ⟨hxowner, hxbucket⟩ := hrest x hx
          rw [h.owner_clearBlock_of_bucket hlive (hxbucket.trans hbucket.symm) fun h' => hid (h' ▸ hx),
            (h.clearable hlive).bucket_clearBlock]
          exact ⟨hxowner, hxbucket⟩
        have hstep := ih (h.clearBlock hlive) hnodup hrest'
          (hit || (running.isSome && (some id == running || (c.block id).companion == running)))
        have hfirst := Shrinks.clearBlock h hlive
        have hnext := hstep.emptying.shrinks (h.clearBlock hlive)
        refine ⟨.clear howner hstep.emptying, fun x hx hxlive => ?_, fun x hxlive hxdead => ?_, ?_⟩
        · rcases List.mem_cons.mp hx with rfl | hx
          · have hgone := ((h.clearable hlive).live_clearBlock x).mp (hnext.live hxlive)
            exact absurd (c.part_self x) hgone.1
          · exact hstep.gone x hx hxlive
        · by_cases hpart : c.Part id x
          · exact ⟨id, howner, hover, hpart⟩
          · have hstays := ((h.clearable hlive).live_clearBlock x).mpr ⟨hpart, hxlive⟩
            exact (hstep.targeted x hstays hxdead).of_shrinks hfirst
        · have hflag : (running.isSome && (some id == running || (c.block id).companion == running)) = true ↔
              Lost running c (c.clearBlock id) := by
            rw [lost_clearBlock h hlive]
            cases running with
            | none => simp
            | some r => simp [Part, eq_comm (a := id)]
          rw [hstep.hit_iff, lost_trans hfirst hnext, Bool.or_eq_true, hflag, or_assoc]
      · rw [if_neg hover]
        have hstep := ih h hnodup hrest hit
        refine ⟨hstep.emptying, fun x hx hxlive => ?_, hstep.targeted, hstep.hit_iff⟩
        rcases List.mem_cons.mp hx with rfl | hx
        · have hcore := (hstep.emptying.shrinks h).core x hxlive
          rw [Block.overlaps_eq_of_core hcore]
          exact Bool.eq_false_iff.mpr hover
        · exact hstep.gone x hx hxlive

end InvalidateBlocks

/-! ### The range as a whole -/

/-- No byte of a range is needed by a block that would be wrong if it changed. -/
theorem Census.masked_of_hasCode (h : Census c ∅) (hm : (c.monitor m).installed = true)
    {first len : Nat} (hlen : first + len ≤ pageSize) (hcode : (c.monitor m).hasCode first len = false)
    {i : Nat} (hfirst : first ≤ i) (hlast : i < first + len) (howner : (c.block id).owner = some m)
    (hstart : (c.block id).start ≤ i) (hend : i ≤ (c.block id).last) : (c.block id).masked i = true := by
  have hzero : (c.monitor m).cover.getD i 0 = 0 := by
    rw [Monitor.hasCode, List.any_eq_false] at hcode
    have hi := hcode (i - first) (List.mem_range.mpr (by omega))
    rw [Nat.add_sub_cancel' hfirst] at hi
    simpa using hi
  have hcount := h.count m hm i (by omega)
  rw [hzero, Finset.sdiff_empty] at hcount
  have hempty : c.dependents m i = ∅ := Finset.card_eq_zero.mp hcount.symm
  by_contra hmask
  have hmem : id ∈ c.dependents m i := mem_dependents.mpr ⟨howner, hstart, hend, Bool.eq_false_iff.mpr hmask⟩
  rw [hempty] at hmem
  exact absurd hmem (by simp)

/-- The blocks of a monitor that are left read the bytes of a range when they run, or do not reach it. -/
def Spares (c : Cache) (m : MonitorId) (first last : Nat) : Prop :=
  ∀ id, (c.block id).owner = some m → ∀ i, first ≤ i → i ≤ last → (c.block id).start ≤ i → i ≤ (c.block id).last →
    (c.block id).masked i = true

/-- What invalidating a range of offsets achieves. That no block needs the range any more is known for a page that is
watched, if the write maps were right. -/
structure RangeCleared (m : MonitorId) (first last : Nat) (running : Option BlockId) (c : Cache) (hit : Bool) (c' : Cache)
    (hit' : Bool) : Prop where
  emptying : Emptying m c c'
  spares : (c.monitor m).installed = true → last < pageSize → Census c ∅ → Spares c' m first last
  targeted : ∀ x, (c.block x).live = true → (c'.block x).live = false → c.Targeted m first last x
  hit_iff : hit' = true ↔ hit = true ∨ Lost running c c'

section InvalidateBuckets

variable {first last : Nat} {running : Option BlockId}

/-- Without a hit the running block is left. -/
theorem RangeCleared.spared {hit hit' : Bool} (h : RangeCleared m first last running c hit c' hit') (hmiss : hit' = false) :
    ∀ r, running = some r → (c.block r).live = true → (c'.block r).live = true := by
  intro r hr hlive
  by_contra hdead
  have hhit := h.hit_iff.mpr (.inr ⟨r, hr, hlive, Bool.eq_false_iff.mpr hdead⟩)
  rw [hmiss] at hhit
  cases hhit

theorem overlaps_eq_false_iff {b : Block} : b.overlaps first last = false ↔ last < b.start ∨ b.last < first := by
  simp [Block.overlaps, imp_iff_not_or]

theorem invalidateBuckets_spec (n : Nat) (h : Arranged c) (hit : Bool)
    (hdone : ∀ id, (c.block id).owner = some m → n ≤ (c.block id).bucket → (c.block id).overlaps first last = false) :
    RangeCleared m first last running c hit (invalidateBuckets m first last running n (hit, c)).2
      (invalidateBuckets m first last running n (hit, c)).1 := by
  induction n generalizing c hit with
  | zero =>
      rw [invalidateBuckets]
      dsimp only
      refine ⟨.refl c, fun _ _ _ id howner i hfi hil hsi hie => ?_, fun x hlive hdead => ?_,
        (or_iff_left (not_lost_self running c)).symm⟩
      · have hapart := overlaps_eq_false_iff.mp (hdone id howner (Nat.zero_le _))
        omega
      · exact absurd (hlive.symm.trans hdead) (by simp)
  | succ n ih =>
      rw [invalidateBuckets]
      dsimp only
      by_cases hcode : (c.monitor m).hasCode first (last + 1 - first) = true
      · rw [if_pos hcode]
        have hstep := invalidateBlocks_spec h first last running (h.registry.nodup m n)
          (fun id hid => (h.registry.mem_bucket m n id).mp hid) hit
        generalize invalidateBlocks first last running ((c.monitor m).bucket n) (hit, c) = r at hstep
        obtain ⟨hit₁, c₁⟩ := r
        have hshrinks := hstep.emptying.shrinks h
        have harranged : Arranged c₁ := hstep.emptying.arranged h
        have hnext := ih harranged hit₁ fun id howner hbucket => ?_
        · refine ⟨hstep.emptying.trans hnext.emptying, fun hm hlast hcensus => ?_, fun x hlive hdead => ?_, ?_⟩
          · refine hnext.spares ?_ hlast (hstep.emptying.census h (.empty c m) hcensus)
            rw [Monitor.installed_eq_of_core (hshrinks.monitor m), hm]
          · cases hmid : (c₁.block x).live with
            | true => exact (hnext.targeted x hmid hdead).of_shrinks hshrinks
            | false => exact hstep.targeted x hlive hmid
          · rw [hnext.hit_iff, hstep.hit_iff, lost_trans hshrinks (hnext.emptying.shrinks harranged), or_assoc]
        · -- A block still there was in this bucket, and so met the check, or was in a higher one.
          have hlive : (c₁.block id).live = true := live_iff.mpr ⟨m, howner⟩
          have hcore := hshrinks.core id hlive
          have howner' : (c.block id).owner = some m := (Block.owner_eq_of_core hcore).symm.trans howner
          have hbucket' : (c₁.block id).bucket = (c.block id).bucket := Block.bucket_eq_of_core hcore
          rcases Nat.eq_or_lt_of_le hbucket with heq | hlt
          · exact hstep.gone id ((h.registry.mem_bucket m n id).mpr ⟨howner', by rw [← hbucket', heq]⟩) hlive
          · rw [Block.overlaps_eq_of_core hcore]
            exact hdone id howner' (by rw [← hbucket']; exact hlt)
      · rw [if_neg hcode]
        refine ⟨.refl c, fun hm hlast hcensus id howner i hfi hil hsi hie => ?_, fun x hlive hdead => ?_,
          (or_iff_left (not_lost_self running c)).symm⟩
        · exact hcensus.masked_of_hasCode hm (by omega) (Bool.eq_false_iff.mpr hcode) hfi (by omega) howner hsi hie
        · exact absurd (hlive.symm.trans hdead) (by simp)

/-- Invalidating a range of offsets. -/
theorem invalidate_spec (h : Arranged c) (m : MonitorId) (first last : Nat) (running : Option BlockId) :
    RangeCleared m first last running c false (c.invalidate m first last running).2
      (c.invalidate m first last running).1 := by
  refine invalidateBuckets_spec _ h false fun id howner hbucket => ?_
  have hlive : (c.block id).live = true := live_iff.mpr ⟨m, howner⟩
  rw [overlaps_eq_false_iff]
  refine Or.inl ?_
  cases hcomp : (c.block id).isCompanion with
  | true =>
      have hzero : (c.block id).bucket = 0 := by simpa [Block.isCompanion] using hcomp
      rw [hzero] at hbucket
      exact absurd hbucket (by simp)
  | false =>
      rw [h.registry.ordinary id hlive hcomp, bucketOf, bucketOf, Nat.shiftRight_eq_div_pow,
        Nat.shiftRight_eq_div_pow] at hbucket
      by_contra hle
      have := Nat.div_le_div_right (c := 2 ^ c.settings.hashShift) (Nat.le_of_not_lt hle)
      omega

end InvalidateBuckets

end Recompiler.Cache
