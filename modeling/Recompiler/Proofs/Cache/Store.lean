import Recompiler.Proofs.Cache.Pages
import Recompiler.Proofs.Memory

/-! Stores under the eyes of the monitors. Before a byte of a watched page changes, every block that would be wrong
afterwards is cleared. -/

namespace Recompiler

namespace Cache

variable {c c' : Cache} {m n : MonitorId} {id x : BlockId} {E : Finset BlockId}

/-- What noting a store does. -/
structure Noted (m : MonitorId) (offset len : Nat) (running : Option BlockId) (c : Cache) (hit : Bool) (c' : Cache) :
    Prop where
  sound : Sound c'
  exact : Exact c ∅ → Exact c' ∅
  narrows : Narrows c c'
  spares : Exact c ∅ → Spares c' m offset (offset + len - 1)
  spared : hit = false → ∀ r, running = some r → (c.block r).live = true → (c'.block r).live = true
  station : ∀ n, (c'.monitor n).installed = true →
    (c.monitor n).installed = true ∧ (c'.monitor n).station = (c.monitor n).station
  capped : ∀ U, CappedAt c U → CappedAt c' U

theorem Narrows.modifyMonitor (c : Cache) (m : MonitorId) {f : Monitor → Monitor} (hf : ∀ mon, (f mon).steady = mon.steady) :
    Narrows c (c.modifyMonitor m f) := by
  refine ⟨rfl, rfl, rfl, size_modifyMonitor c m f, fun _ _ => rfl, fun x n _ => ?_⟩
  exact map_monitor_modifyMonitor c m n fun mon => Monitor.map_eq_of_steady (hf mon) Monitor.station fun _ => rfl

theorem noteStore_spec (h : Sound c) (hm : (c.monitor m).installed = true) {offset len : Nat} (hlen : 0 < len)
    (hfit : offset + len ≤ pageSize) (running : Option BlockId) :
    Noted m offset len running c (c.noteStore m offset len running).1 (c.noteStore m offset len running).2 := by
  unfold noteStore
  by_cases hcode : (c.monitor m).hasCode offset len = true
  · rw [if_pos hcode]
    dsimp only
    generalize hf : (fun mon : Monitor => ({ mon with overwrites := _ } : Monitor)) = f
    have hsteady : ∀ mon, (f mon).steady = mon.steady := fun mon => by rw [← hf]; rfl
    have hcosmetic := Cosmetic.modifyMonitor c m hsteady
    have hstation := hcosmetic.station
    have hnoted := h.congr hcosmetic
    have hrange := invalidate_spec hnoted.toArranged m offset (offset + len - 1) running
    have hshrinks := hrange.emptying.shrinks hnoted.toArranged
    refine ⟨hrange.emptying.sound hnoted,
      fun he => hrange.emptying.exact hnoted.toArranged (.empty _ m) (he.congr hcosmetic),
      (Narrows.modifyMonitor c m hsteady).trans (.of_shrinks hshrinks),
      fun he => hrange.spares ((hstation m).1.trans hm) (by omega) (he.congr hcosmetic).census, hrange.spared, fun n hn => ?_,
      fun U hcap => hrange.emptying.capped hnoted.toArranged (hcap.cosmetic hcosmetic)⟩
    have hcore := hshrinks.monitor n
    rw [Monitor.installed_eq_of_core hcore, (hstation n).1] at hn
    exact ⟨hn, (Monitor.station_eq_of_core hcore).trans (hstation n).2⟩
  · rw [if_neg hcode]
    have hspares : Exact c ∅ → Spares c m offset (offset + len - 1) := fun he id howner i hfi hil hsi hie =>
      he.census.masked_of_hasCode hm hfit (Bool.eq_false_iff.mpr hcode) hfi (by omega) howner hsi hie
    split
    · rename_i hactive
      have hnone : ∀ x, (c.block x).owner ≠ some m := fun x hx => by
        have hcard := h.registry.active m
        rw [hactive] at hcard
        have hmem : x ∈ c.owned m := mem_owned.mpr hx
        rw [Finset.card_eq_zero.mp hcard.symm] at hmem
        exact absurd hmem (by simp)
      have hsteady : ∀ mon : Monitor, ({ mon with patience := mon.patience - 1 } : Monitor).steady = mon.steady :=
        fun _ => rfl
      have hcosmetic := Cosmetic.modifyMonitor c m hsteady
      have hstation := hcosmetic.station
      have hnarrows := Narrows.modifyMonitor c m hsteady
      have hsound := h.congr hcosmetic
      have hexact : Exact c ∅ → Exact (c.modifyMonitor m fun mon => { mon with patience := mon.patience - 1 }) ∅ :=
        fun he => he.congr hcosmetic
      have hm' := (hstation m).1.trans hm
      have hblock : ∀ x, (c.modifyMonitor m fun mon => { mon with patience := mon.patience - 1 }).block x = c.block x :=
        fun _ => rfl
      dsimp only
      generalize c.modifyMonitor m (fun mon => { mon with patience := mon.patience - 1 }) = d at *
      split
      · have hapart := PagesApart.release d m
        have hw := hsound.watches
        have hnone' : ∀ x, (d.block x).owner ≠ some m := fun x => hblock x ▸ hnone x
        refine ⟨hsound.release hm' hnone', fun he => (hexact he).release hm' hnone' hw, hnarrows.trans (.of_pagesApart hapart
          fun _ n _ => station_release hw hm' n), fun _ x hx => ?_, fun _ r _ hr => ?_, fun n hn => ?_,
          fun U hcap => (hcap.cosmetic hcosmetic).release hw hm'⟩
        · rw [hapart.block, hblock] at hx
          exact absurd hx (hnone x)
        · rw [hapart.block, hblock]
          exact hr
        · rw [installed_release hw hm', (hstation n).1] at hn
          exact ⟨hn.2, (station_release hw hm' n).trans (hstation n).2⟩
      · refine ⟨hsound, hexact, hnarrows, fun _ x hx => ?_, fun _ r _ hr => hblock r ▸ hr, fun n hn => ?_,
          fun U hcap => hcap.cosmetic hcosmetic⟩
        · rw [hblock] at hx
          exact absurd hx (hnone x)
        · exact ⟨(hstation n).1 ▸ hn, (hstation n).2⟩
    · exact ⟨h, id, .refl c, hspares, fun _ _ _ hr => hr, fun _ hn => ⟨hn, rfl⟩, fun _ hcap => hcap⟩

/-- What stores do to memory and cache. If the write maps are right, no block is left that would be wrong now, whatever
bytes changed. -/
structure Stored (mem : Memory) (c : Cache) (mem' : Memory) (c' : Cache) : Prop where
  sound : Sound c'
  exact : Exact c ∅ → Exact c' ∅
  narrows : Narrows c c'
  frame : mem'.frame = mem.frame
  size : mem'.ram.size = mem.ram.size
  safe : Exact c ∅ → ∀ a, mem'.byte a ≠ mem.byte a → ∀ x m, (c'.block x).owner = some m → (c'.monitor m).page = pageOf a →
    (c'.block x).start ≤ pageOffset a → pageOffset a ≤ (c'.block x).last → (c'.block x).masked (pageOffset a) = true
  station : ∀ n, (c'.monitor n).installed = true →
    (c.monitor n).installed = true ∧ (c'.monitor n).station = (c.monitor n).station
  capped : ∀ U, CappedAt c U → CappedAt c' U

namespace Stored

variable {mem mem' mem'' : Memory} {c'' : Cache}

theorem refl (h : Sound c) (mem : Memory) : Stored mem c mem c :=
  ⟨h, id, .refl c, rfl, rfl, fun _ _ ha => absurd rfl ha, fun _ hn => ⟨hn, rfl⟩, fun _ hcap => hcap⟩

theorem trans (h : Stored mem c mem' c') (h' : Stored mem' c' mem'' c'') : Stored mem c mem'' c'' where
  sound := h'.sound
  exact he := h'.exact (h.exact he)
  narrows := h.narrows.trans h'.narrows
  frame := h'.frame.trans h.frame
  size := h'.size.trans h.size
  safe he a ha x m hx hpage hstart hlast := by
    by_cases ha' : mem''.byte a = mem'.byte a
    · have hcore := h'.narrows.core x (live_iff.mpr ⟨m, hx⟩)
      have hpage' : (c'.monitor m).page = (c''.monitor m).page := congrArg Prod.fst (h'.narrows.station x m hx).symm
      rw [Block.start_eq_of_core hcore] at hstart
      rw [Block.last_eq_of_core hcore] at hlast
      rw [Block.masked_eq_of_core hcore]
      exact h.safe he a (ha' ▸ ha) x m (h'.narrows.owner hx) (hpage'.trans hpage) hstart hlast
    · exact h'.safe (h.exact he) a ha' x m hx hpage hstart hlast
  station n hn := by
    obtain ⟨hn', hstation'⟩ := h'.station n hn
    obtain ⟨hn, hstation⟩ := h.station n hn'
    exact ⟨hn, hstation'.trans hstation⟩
  capped U hcap := h'.capped U (h.capped U hcap)

end Stored

theorem frame_reportRelease (c : Cache) (m : MonitorId) (page : UInt32) (mem : Memory) :
    (c.reportRelease m page mem).frame = mem.frame ∧ (c.reportRelease m page mem).ram = mem.ram := by
  unfold reportRelease
  split <;> exact ⟨rfl, rfl⟩

theorem byte_congr {mem mem' : Memory} (h : mem'.ram = mem.ram) (a : UInt32) : mem'.byte a = mem.byte a := by
  rw [Memory.byte_eq, Memory.byte_eq, h]

section Write

variable {mem : Memory} {paddr : UInt32} {w : Width} {value : UInt32}

theorem frame_write (mem : Memory) (paddr : UInt32) (w : Width) (value : UInt32) :
    (mem.write paddr w value).frame = mem.frame :=
  Memory.frame_setBytes ..

theorem size_write (mem : Memory) (paddr : UInt32) (w : Width) (value : UInt32) :
    (mem.write paddr w value).ram.size = mem.ram.size :=
  Memory.size_setBytes ..

/-- A store to a page that nothing watches. -/
theorem Stored.unwatched (h : Sound c) (hfit : pageOffset paddr + w.bytes ≤ pageSize)
    (hnone : c.monitorOf (pageOf paddr) = none) : Stored mem c (mem.writeUnlessRom paddr w value) c := by
  unfold Memory.writeUnlessRom
  split
  · exact .refl h mem
  · refine ⟨h, id, .refl c, frame_write .., size_write .., fun _ a ha x m hx hpage _ _ => ?_, fun _ hn => ⟨hn, rfl⟩,
      fun _ hcap => hcap⟩
    have hpaddr := (Memory.page_of_byte_write_ne mem paddr a hfit ha).1
    rw [(h.watches.byPage (pageOf paddr) m).mpr ⟨h.registry.installed x m hx, hpage.trans hpaddr⟩] at hnone
    exact absurd hnone (by simp)

/-- A store that was noted before it is made. -/
theorem Noted.stored (h : Sound c) (hm : c.monitorOf (pageOf paddr) = some m)
    (hfit : pageOffset paddr + w.bytes ≤ pageSize) {running : Option BlockId} {hit : Bool}
    (hn : Noted m (pageOffset paddr) w.bytes running c hit c') {mem' : Memory} (hframe : mem'.frame = mem.frame)
    (hram : mem'.ram = (mem.write paddr w value).ram) : Stored mem c mem' c' := by
  refine ⟨hn.sound, hn.exact, hn.narrows, hframe, by rw [hram]; exact size_write ..,
    fun he a ha x n hx hpage hstart hlast => ?_, hn.station, hn.capped⟩
  rw [byte_congr hram] at ha
  obtain ⟨hpaddr, hfirst, hend⟩ := Memory.page_of_byte_write_ne mem paddr a hfit ha
  obtain ⟨hninst, hstation⟩ := hn.station n (hn.sound.registry.installed x n hx)
  have hnpage : (c.monitor n).page = pageOf paddr := (congrArg Prod.fst hstation).symm.trans (hpage.trans hpaddr)
  have hnm := (h.watches.byPage _ n).mpr ⟨hninst, hnpage⟩
  rw [hm] at hnm
  obtain rfl := Option.some.inj hnm
  exact hn.spares he x hx (pageOffset a) hfirst (by omega) hstart hlast

theorem bytes_pos (w : Width) : 0 < w.bytes := by
  cases w <;> decide

theorem write_spec (h : Sound c) (hfit : pageOffset paddr + w.bytes ≤ pageSize) :
    Stored mem c (c.write mem paddr w value).1 (c.write mem paddr w value).2 := by
  unfold write
  split
  · rename_i hnone
    exact .unwatched h hfit hnone
  · rename_i m hm
    split
    · exact .refl h mem
    · split
      · exact .refl h mem
      · have hn := noteStore_spec h ((h.watches.byPage _ m).mp hm).1 (bytes_pos w) hfit none
        dsimp only
        generalize c.noteStore m (pageOffset paddr) w.bytes none = r at hn
        obtain ⟨hit, c'⟩ := r
        obtain ⟨hframe, hram⟩ := frame_reportRelease c' m (c.monitor m).page (mem.write paddr w value)
        exact hn.stored h hm hfit (hframe.trans (frame_write ..)) hram

/-- A store by a running block; unless it hits that block, the block is left alone. -/
theorem writeChecked_spec (h : Sound c) (hfit : pageOffset paddr + w.bytes ≤ pageSize) (running : Option BlockId) :
    Stored mem c (c.writeChecked mem paddr w value running).2.1 (c.writeChecked mem paddr w value running).2.2 ∧
      ((c.writeChecked mem paddr w value running).1 = false → ∀ r, running = some r → (c.block r).live = true →
        ((c.writeChecked mem paddr w value running).2.2.block r).live = true) := by
  unfold writeChecked
  split
  · rename_i hnone
    exact ⟨.unwatched h hfit hnone, fun _ _ _ hr => hr⟩
  · rename_i m hm
    split
    · exact ⟨.refl h mem, fun _ _ _ hr => hr⟩
    · split
      · exact ⟨.refl h mem, fun _ _ _ hr => hr⟩
      · have hn := noteStore_spec h ((h.watches.byPage _ m).mp hm).1 (bytes_pos w) hfit running
        dsimp only
        generalize c.noteStore m (pageOffset paddr) w.bytes running = r at hn
        obtain ⟨hit, c'⟩ := r
        cases hit with
        | true => exact ⟨⟨hn.sound, hn.exact, hn.narrows, rfl, rfl, fun _ _ ha => absurd rfl ha, hn.station, hn.capped⟩, by simp⟩
        | false =>
            obtain ⟨hframe, hram⟩ := frame_reportRelease c' m (c.monitor m).page mem
            have hram' : ((c'.reportRelease m (c.monitor m).page mem).write paddr w value).ram =
                (mem.write paddr w value).ram := Memory.ram_setBytes_congr hram paddr _
            exact ⟨hn.stored h hm hfit ((frame_write ..).trans hframe) hram', fun _ => hn.spared rfl⟩

end Write

end Cache

end Recompiler
