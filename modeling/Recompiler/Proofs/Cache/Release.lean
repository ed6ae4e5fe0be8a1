import Recompiler.Proofs.Cache.Invalidate

/-! Releasing a page. Its monitor leaves the list of installed ones; this is only done to monitors without blocks.
When the blocks of a page are cleared first their bytes are not given back one by one, as the whole write map goes.
That is the same as clearing them one after the other and then blanking what the monitor accounts for. -/

namespace Recompiler

/-- A monitor after its neighbour in the list of installed ones left. -/
def Monitor.skip (mon : Monitor) (n : MonitorId) (gone : Monitor) : Monitor :=
  { mon with
    next := if gone.prev = some n then gone.next else mon.next
    prev := if gone.next = some n then gone.prev else mon.prev }

/-- A monitor that watches no page any more. -/
def Monitor.idle (mon : Monitor) : Monitor :=
  { mon with installed := false, overwrites := noOverwrites, prev := none, next := none }

namespace Cache

variable {c c' : Cache} {m n : MonitorId} {id : BlockId} {E : Finset BlockId}

theorem Watches.prev_ne (h : Watches c) (a : MonitorId) : (c.monitor a).prev ≠ some a := by
  obtain ⟨age, hage⟩ := h.aged
  exact fun ha => absurd (hage a a ha) (Nat.lt_irrefl _)

theorem Watches.next_ne (h : Watches c) (a : MonitorId) : (c.monitor a).next ≠ some a :=
  fun ha => h.prev_ne a ((h.prev_iff a a).mpr ha)

theorem monitor_setOlder (c : Cache) {other : Option MonitorId} (hother : ∀ p, other = some p → p < c.monitors.size)
    (older : Option MonitorId) (n : MonitorId) :
    (c.setOlder other older).monitor n =
      { c.monitor n with next := if other = some n then older else (c.monitor n).next } := by
  cases other with
  | none => simp [setOlder, monitor]
  | some p =>
      rw [setOlder, monitor_modifyMonitor]
      by_cases hn : n = p
      · subst hn
        simp [hother n rfl]
      · simp [hn, Ne.symm hn]

theorem monitor_setNewer (c : Cache) {other : Option MonitorId} (hother : ∀ p, other = some p → p < c.monitors.size)
    (newer : Option MonitorId) (n : MonitorId) :
    (c.setNewer other newer).monitor n =
      { c.monitor n with prev := if other = some n then newer else (c.monitor n).prev } := by
  cases other with
  | none => simp [setNewer, monitor]
  | some p =>
      rw [setNewer, monitor_modifyMonitor]
      by_cases hn : n = p
      · subst hn
        simp [hother n rfl]
      · simp [hn, Ne.symm hn]

theorem size_setOlder (c : Cache) (other older : Option MonitorId) :
    (c.setOlder other older).monitors.size = c.monitors.size := by
  cases other <;> simp [setOlder]

theorem size_setNewer (c : Cache) (other newer : Option MonitorId) :
    (c.setNewer other newer).monitors.size = c.monitors.size := by
  cases other <;> simp [setNewer]

/-- The monitors and the list of those installed, when a monitor has left it. -/
def unlist (c : Cache) (m : MonitorId) : Cache :=
  ((c.modifyMonitor m Monitor.idle).setOlder (c.monitor m).prev (c.monitor m).next).setNewer (c.monitor m).next
    (c.monitor m).prev

theorem release_eq (c : Cache) (m : MonitorId) :
    c.release m = ({ c.unlist m with
      byPage := (c.unlist m).byPage.erase (c.monitor m).page
      freeMonitors := m :: (c.unlist m).freeMonitors }).modifyStats fun s => { s with released := s.released + 1 } :=
  rfl

theorem offPages_setOlder (c : Cache) (other older : Option MonitorId) :
    (c.setOlder other older).offPages = c.offPages := by
  cases other <;> rfl

theorem offPages_setNewer (c : Cache) (other newer : Option MonitorId) :
    (c.setNewer other newer).offPages = c.offPages := by
  cases other <;> rfl

theorem lists_setOlder (c : Cache) (other older : Option MonitorId) :
    (c.setOlder other older).newest = (if other = none then older else c.newest) ∧
    (c.setOlder other older).oldest = c.oldest ∧ (c.setOlder other older).byPage = c.byPage ∧
    (c.setOlder other older).freeMonitors = c.freeMonitors := by
  cases other <;> exact ⟨rfl, rfl, rfl, rfl⟩

theorem lists_setNewer (c : Cache) (other newer : Option MonitorId) :
    (c.setNewer other newer).newest = c.newest ∧
    (c.setNewer other newer).oldest = (if other = none then newer else c.oldest) ∧
    (c.setNewer other newer).byPage = c.byPage ∧ (c.setNewer other newer).freeMonitors = c.freeMonitors := by
  cases other <;> exact ⟨rfl, rfl, rfl, rfl⟩

theorem offPages_unlist (c : Cache) (m : MonitorId) : (c.unlist m).offPages = c.offPages := by
  rw [unlist, offPages_setNewer, offPages_setOlder]
  rfl

theorem lists_unlist (c : Cache) (m : MonitorId) :
    (c.unlist m).newest = (if (c.monitor m).prev = none then (c.monitor m).next else c.newest) ∧
    (c.unlist m).oldest = (if (c.monitor m).next = none then (c.monitor m).prev else c.oldest) ∧
    (c.unlist m).byPage = c.byPage ∧ (c.unlist m).freeMonitors = c.freeMonitors := by
  unfold unlist
  obtain ⟨hnewest, holdest, hbyPage, hfree⟩ := lists_setNewer
    ((c.modifyMonitor m Monitor.idle).setOlder (c.monitor m).prev (c.monitor m).next) (c.monitor m).next (c.monitor m).prev
  obtain ⟨hnewest', holdest', hbyPage', hfree'⟩ := lists_setOlder (c.modifyMonitor m Monitor.idle) (c.monitor m).prev
    (c.monitor m).next
  rw [hnewest, holdest, hbyPage, hfree, hnewest', holdest', hbyPage', hfree']
  exact ⟨rfl, rfl, rfl, rfl⟩

theorem newest_release (c : Cache) (m : MonitorId) :
    (c.release m).newest = if (c.monitor m).prev = none then (c.monitor m).next else c.newest :=
  (lists_unlist c m).1

theorem oldest_release (c : Cache) (m : MonitorId) :
    (c.release m).oldest = if (c.monitor m).next = none then (c.monitor m).prev else c.oldest :=
  (lists_unlist c m).2.1

theorem byPage_release (c : Cache) (m : MonitorId) : (c.release m).byPage = c.byPage.erase (c.monitor m).page := by
  rw [← (lists_unlist c m).2.2.1]
  rfl

theorem freeMonitors_release (c : Cache) (m : MonitorId) : (c.release m).freeMonitors = m :: c.freeMonitors := by
  rw [← (lists_unlist c m).2.2.2]
  rfl

theorem stats_release (c : Cache) (m : MonitorId) :
    (c.release m).stats = { c.stats with released := c.stats.released + 1 } := by
  have hstats : (c.unlist m).stats = c.stats := by
    unfold unlist setNewer setOlder
    cases (c.monitor m).prev <;> cases (c.monitor m).next <;> rfl
  rw [← hstats]
  rfl

theorem offPages_release (c : Cache) (m : MonitorId) : (c.release m).offPages = c.offPages :=
  offPages_unlist c m

theorem size_monitors_release (c : Cache) (m : MonitorId) : (c.release m).monitors.size = c.monitors.size := by
  rw [release_eq, monitors_modifyStats]
  exact (size_setNewer _ _ _).trans ((size_setOlder _ _ _).trans (size_modifyMonitor c m _))

theorem monitor_release (h : Watches c) (hm : (c.monitor m).installed = true) (n : MonitorId) :
    (c.release m).monitor n = if n = m then (c.monitor m).idle else (c.monitor n).skip n (c.monitor m) := by
  have hsize : ∀ p, (c.monitor m).prev = some p → p < c.monitors.size := fun p hp =>
    lt_size_of_installed (h.prev_newer m p hp).2
  have hsize' : ∀ q, (c.monitor m).next = some q → q < c.monitors.size := fun q hq =>
    lt_size_of_installed (h.prev_newer q m ((h.prev_iff q m).mpr hq)).1
  change (c.unlist m).monitor n = _
  unfold unlist
  rw [monitor_setNewer _ (by simpa [size_setOlder] using hsize'), monitor_setOlder _ (by simpa using hsize)]
  by_cases hn : n = m
  · subst hn
    simp [monitor_modifyMonitor_self (lt_size_of_installed hm), Monitor.idle, h.prev_ne n, h.next_ne n]
  · simp [monitor_modifyMonitor_ne _ hn, hn, Monitor.skip]

theorem Watches.release (h : Watches c) (hm : (c.monitor m).installed = true) : Watches (c.release m) := by
  have hmon := fun n => monitor_release h hm n
  have hself : (c.release m).monitor m = (c.monitor m).idle := by rw [hmon, if_pos rfl]
  have hother : ∀ n, n ≠ m → (c.release m).monitor n = (c.monitor n).skip n (c.monitor m) := fun n hn => by
    rw [hmon, if_neg hn]
  have hinst : ∀ n, ((c.release m).monitor n).installed = true ↔ n ≠ m ∧ (c.monitor n).installed = true := by
    intro n
    by_cases hn : n = m
    · simp [hn, hself, Monitor.idle]
    · simp [hn, hother n hn, Monitor.skip]
  have hpage : ∀ n, ((c.release m).monitor n).page = (c.monitor n).page := by
    intro n
    by_cases hn : n = m
    · rw [hn, hself]; rfl
    · rw [hother n hn]; rfl
  have hprev : ∀ n, n ≠ m → ((c.release m).monitor n).prev =
      if (c.monitor m).next = some n then (c.monitor m).prev else (c.monitor n).prev := fun n hn => by
    rw [hother n hn]; rfl
  have hnext : ∀ n, n ≠ m → ((c.release m).monitor n).next =
      if (c.monitor m).prev = some n then (c.monitor m).next else (c.monitor n).next := fun n hn => by
    rw [hother n hn]; rfl
  have hnone : ((c.release m).monitor m).prev = none ∧ ((c.release m).monitor m).next = none := by
    rw [hself]; exact ⟨rfl, rfl⟩
  -- Where a monitor precedes another after the release, it did so before or the released one stood between them.
  have hcases : ∀ a b, ((c.release m).monitor a).prev = some b →
      a ≠ m ∧ b ≠ m ∧ ((c.monitor a).prev = some b ∨ (c.monitor a).prev = some m ∧ (c.monitor m).prev = some b) := by
    intro a b hab
    have ha : a ≠ m := by
      rintro rfl
      rw [hnone.1] at hab
      exact absurd hab (by simp)
    rw [hprev a ha] at hab
    split at hab
    · rename_i hma
      refine ⟨ha, ?_, Or.inr ⟨(h.prev_iff a m).mpr hma, hab⟩⟩
      rintro rfl
      exact h.prev_ne b hab
    · rename_i hma
      refine ⟨ha, ?_, Or.inl hab⟩
      rintro rfl
      exact hma ((h.prev_iff a b).mp hab)
  refine ⟨fun p n => ?_, fun n hn => ?_, ?_, fun n hn => ?_, fun n hn => ?_, fun a b => ?_, fun a b hab => ?_, ?_,
    fun n hn => ?_, fun n hn => ?_⟩
  · have hlookup : (c.release m).monitorOf p = if (c.monitor m).page == p then none else c.monitorOf p := by
      rw [monitorOf, byPage_release, Std.HashMap.getElem?_erase]
      rfl
    rw [hlookup, hinst, hpage]
    split
    · rename_i hp
      refine ⟨fun h' => absurd h' (by simp), ?_⟩
      rintro ⟨⟨hne, hn⟩, hnp⟩
      have hn' := (h.byPage p n).mpr ⟨hn, hnp⟩
      rw [(h.byPage p m).mpr ⟨hm, by simpa using hp⟩] at hn'
      exact absurd (Option.some.inj hn').symm hne
    · rename_i hp
      rw [h.byPage]
      constructor
      · rintro ⟨hn, hnp⟩
        refine ⟨⟨?_, hn⟩, hnp⟩
        rintro rfl
        exact hp (by simpa using hnp)
      · rintro ⟨⟨-, hn⟩, hnp⟩
        exact ⟨hn, hnp⟩
  · rw [hpage]
    exact h.page_lt n ((hinst n).mp hn).2
  · rw [freeMonitors_release, List.nodup_cons]
    refine ⟨fun hmem => ?_, h.free_nodup⟩
    rw [h.free_idle m hmem] at hm
    exact absurd hm (by simp)
  · rw [size_monitors_release]
    rw [freeMonitors_release] at hn
    rcases List.mem_cons.mp hn with rfl | hn
    · exact lt_size_of_installed hm
    · exact h.free_lt n hn
  · rw [Bool.eq_false_iff, Ne, hinst]
    rw [freeMonitors_release] at hn
    rcases List.mem_cons.mp hn with rfl | hn
    · exact fun h' => h'.1 rfl
    · exact fun h' => absurd (h.free_idle n hn) (by simp [h'.2])
  · constructor
    · intro hab
      obtain ⟨ha, hb, hold | ⟨ham, hmb⟩⟩ := hcases a b hab
      · rw [hnext b hb, if_neg, ← h.prev_iff]
        · exact hold
        · intro hmb
          have hba := (h.prev_iff a b).mp hold
          rw [(h.prev_iff m b).mp hmb] at hba
          exact ha (Option.some.inj hba).symm
      · rw [hnext b hb, if_pos hmb, ← h.prev_iff]
        exact ham
    · intro hba
      have hb : b ≠ m := by
        rintro rfl
        rw [hnone.2] at hba
        exact absurd hba (by simp)
      rw [hnext b hb] at hba
      split at hba
      · rename_i hmb
        have ha : a ≠ m := by
          rintro rfl
          exact h.next_ne a hba
        rw [hprev a ha, if_pos hba]
        exact hmb
      · rename_i hmb
        have hab := (h.prev_iff a b).mpr hba
        have ha : a ≠ m := by
          rintro rfl
          exact hmb hab
        rw [hprev a ha, if_neg]
        · exact hab
        · intro hma
          rw [(h.prev_iff a m).mpr hma] at hab
          exact hb (Option.some.inj hab).symm
  · obtain ⟨ha, hb, hold | ⟨ham, hmb⟩⟩ := hcases a b hab
    · have := h.prev_newer a b hold
      exact ⟨(hinst a).mpr ⟨ha, this.1⟩, (hinst b).mpr ⟨hb, this.2⟩⟩
    · exact ⟨(hinst a).mpr ⟨ha, (h.prev_newer a m ham).1⟩, (hinst b).mpr ⟨hb, (h.prev_newer m b hmb).2⟩⟩
  · obtain ⟨age, hage⟩ := h.aged
    refine ⟨age, fun a b hab => ?_⟩
    obtain ⟨-, -, hold | ⟨ham, hmb⟩⟩ := hcases a b hab
    · exact hage a b hold
    · exact (hage a m ham).trans (hage m b hmb)
  · rw [newest_release] at hn
    split at hn
    · rename_i hmprev
      have hnm := (h.prev_iff n m).mpr hn
      have hne : n ≠ m := by
        rintro rfl
        exact h.next_ne n hn
      rw [hinst, hprev n hne, if_pos hn]
      exact ⟨⟨hne, (h.prev_newer n m hnm).1⟩, hmprev⟩
    · rename_i hmprev
      obtain ⟨hninst, hnprev⟩ := h.newest n hn
      have hne : n ≠ m := by
        rintro rfl
        exact hmprev hnprev
      rw [hinst, hprev n hne, if_neg]
      · exact ⟨⟨hne, hninst⟩, hnprev⟩
      · intro hma
        rw [(h.prev_iff n m).mpr hma] at hnprev
        exact absurd hnprev (by simp)
  · rw [oldest_release] at hn
    split at hn
    · rename_i hmnext
      have hne : n ≠ m := by
        rintro rfl
        exact h.prev_ne n hn
      rw [hinst, hnext n hne, if_pos hn]
      exact ⟨⟨hne, (h.prev_newer m n hn).2⟩, hmnext⟩
    · rename_i hmnext
      obtain ⟨hninst, hnnext⟩ := h.oldest n hn
      have hne : n ≠ m := by
        rintro rfl
        exact hmnext hnnext
      rw [hinst, hnext n hne, if_neg]
      · exact ⟨⟨hne, hninst⟩, hnnext⟩
      · intro hma
        rw [(h.prev_iff m n).mp hma] at hnnext
        exact absurd hnnext (by simp)

/-- Two caches that differ at most in their monitors, the list of them and the counts. -/
structure PagesApart (c c' : Cache) : Prop where
  offPages : c'.offPages = c.offPages
  size : c'.monitors.size = c.monitors.size

namespace PagesApart

theorem settings (h : PagesApart c c') : c'.settings = c.settings := by
  have hfield := congrArg Cache.settings h.offPages
  exact hfield

theorem blocks (h : PagesApart c c') : c'.blocks = c.blocks := by
  have hfield := congrArg Cache.blocks h.offPages
  exact hfield

theorem block (h : PagesApart c c') (x : BlockId) : c'.block x = c.block x := by
  rw [Cache.block, h.blocks, ← Cache.block]

theorem release (c : Cache) (m : MonitorId) : PagesApart c (c.release m) :=
  ⟨offPages_release c m, size_monitors_release c m⟩

end PagesApart

/-- The monitors that are left after one without blocks was released. -/
structure Outlived (m : MonitorId) (c c' : Cache) : Prop where
  apart : PagesApart c c'
  other : ∀ n, n ≠ m → c'.monitor n = (c.monitor n).skip n (c.monitor m)
  self : c'.monitor m = (c.monitor m).idle

theorem outlived_release (h : Watches c) (hm : (c.monitor m).installed = true) : Outlived m c (c.release m) := by
  have hmon := monitor_release h hm
  refine ⟨.release c m, fun n hn => ?_, ?_⟩
  · rw [hmon, if_neg hn]
  · rw [hmon, if_pos rfl]

theorem Outlived.ne_of_installed (h : Outlived m c c') {n : MonitorId} (hn : (c'.monitor n).installed = true) : n ≠ m := by
  rintro rfl
  rw [h.self] at hn
  exact absurd hn (by simp [Monitor.idle])

section

variable (hm : (c.monitor m).installed = true) (hnone : ∀ id, (c.block id).owner ≠ some m)
include hm hnone

omit hm in
theorem owner_ne_of_none {n : MonitorId} (hid : (c.block id).owner = some n) : n ≠ m := by
  rintro rfl
  exact hnone id hid

/-- Releasing a monitor without blocks. -/
theorem Sound.release (h : Sound c) : Sound (c.release m) := by
  have hout := outlived_release h.watches hm
  have hapart := hout.apart
  have htenant : ∀ x, ((c.release m).block x).tenant = (c.block x).tenant := fun x => by rw [hapart.block]
  have hvalid : (c.release m).settings.Valid := by rw [hapart.settings]; exact h.valid
  refine ⟨⟨⟨?_, h.paired.congr htenant⟩, hvalid, h.watches.release hm⟩, ?_, ?_⟩
  · refine h.registry.congr hapart.settings (fun x => Block.claim_eq_of_tenant (htenant x)) hapart.size (fun n => ?_)
      (fun id n hid => ?_) fun n => ?_
    · by_cases hn : n = m
      · rw [hn, hout.self, Monitor.idle]
      · rw [hout.other n hn, Monitor.skip]
    · rw [hout.other n (owner_ne_of_none hnone hid)]
      exact h.registry.installed id n hid
    · by_cases hn : n = m
      · rw [hn, hout.self]
        exact h.registry.active m
      · rw [hout.other n hn]
        exact h.registry.active n
  · exact h.layout.of_body (congrArg (fun c : Cache => { c with building := none }) hapart.offPages)
  · rw [stats_release]
    exact h.calm

theorem Exact.release (he : Exact c E) (h : Watches c) : Exact (c.release m) E := by
  have hout := outlived_release h hm
  have htenant : ∀ x, ((c.release m).block x).tenant = (c.block x).tenant := fun x => by rw [hout.apart.block]
  refine ⟨he.adjacent.congr htenant fun id n hid => ?_, ?_⟩
  · rw [hout.other n (owner_ne_of_none hnone hid), Monitor.skip]
  · refine he.census.congr (fun x => Block.claim_eq_of_tenant (htenant x)) fun n hn => ?_
    have hskip := hout.other n (hout.ne_of_installed hn)
    rw [hskip] at hn ⊢
    exact ⟨hn, rfl⟩

end

end Cache

end Recompiler
