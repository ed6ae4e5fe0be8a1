import Recompiler.Proofs.Cache.Announced
import Recompiler.Proofs.Cache.Initial

/-! The list of installed monitors, written out. It reads the same from its newest member on and, backwards, from its
oldest one on. A monitor that is put on a page comes first, one that is released leaves its place, and the others stay
in order. All other monitors are free, so that there is always one to put on a page. -/

namespace Recompiler

open Cache

namespace Cache

variable {c c' : Cache} {m n : MonitorId} {spare keep : Option MonitorId} {l before after : List MonitorId} {page : UInt32}
  {flags : UInt8} {code32 : Bool}

/-- The installed monitors are those of `l`, the newest first, and the others are free, apart from one that was taken to
be put on a page. -/
structure Lineup (c : Cache) (spare : Option MonitorId) (l : List MonitorId) : Prop extends Watches c where
  path : Path (fun m => (c.monitor m).next) c.newest l none
  last : c.oldest = l.getLast?
  mem : ∀ m, m ∈ l ↔ (c.monitor m).installed = true
  free : ∀ m, m ∈ c.freeMonitors ↔ m < c.monitors.size ∧ (c.monitor m).installed = false ∧ spare ≠ some m
  idle : ∀ m, spare = some m → m < c.monitors.size ∧ (c.monitor m).installed = false
  pool : c.monitors.size = c.settings.codePages
  two_le : 2 ≤ c.monitors.size

/-- The monitor that was put on a page on the way from one cache to another, if any. -/
def arrivals (c c' : Cache) : List MonitorId :=
  if c.stats.installed < c'.stats.installed then c'.newest.toList else []

theorem lineup_create {s : Settings} (hs : s.Valid) (arenaBase blocksStart : Nat) (stubs : PerSlot Nat) :
    Lineup (create s arenaBase blocksStart stubs) none [] := by
  have hsize : (create s arenaBase blocksStart stubs).monitors.size = s.codePages := by simp [create]
  have hidle : ∀ m, ((create s arenaBase blocksStart stubs).monitor m).installed = false := fun m => by rw [monitor_create]
  refine ⟨(consistent_create hs arenaBase blocksStart stubs).watches, rfl, rfl, fun m => ?_, fun m => ?_, by simp, hsize, ?_⟩
  · simp [hidle]
  · rw [hsize, hidle]
    simp [create]
  · rw [hsize]
    exact hs.two_le_codePages

namespace Lineup

theorem nodup (h : Lineup c spare l) : l.Nodup :=
  h.path.nodup

/-- The list has no more members than there are monitors. -/
theorem length_le (h : Lineup c spare l) : l.length ≤ c.monitors.size := by
  have hrange : l ⊆ List.range c.monitors.size := fun m hm => List.mem_range.mpr (lt_size_of_installed ((h.mem m).mp hm))
  have hlength := (h.nodup.subperm hrange).length_le
  rwa [List.length_range] at hlength

/-- Following the list gives all of it. -/
theorem installed_eq (h : Lineup c spare l) : c.installed = l :=
  h.path.chain_eq (h.length_le.trans (Nat.le_succ _))

/-! ### Neighbours -/

theorem next_eq (h : Lineup c spare (before ++ m :: after)) : (c.monitor m).next = after.head? := by
  obtain ⟨mid, -, -, hafter⟩ := Path.append_iff.mp h.path
  cases after with
  | nil => exact hafter
  | cons a rest => exact hafter.1

theorem prev_eq (h : Lineup c spare (before ++ m :: after)) : (c.monitor m).prev = before.getLast? := by
  rcases List.eq_nil_or_concat before with rfl | ⟨init, p, rfl⟩
  · exact (h.newest m h.path.1).2
  · rw [List.concat_eq_append, List.append_assoc] at h
    rw [List.concat_eq_append, List.getLast?_concat]
    exact (h.prev_iff m p).mpr h.next_eq

/-- Backwards the list is the same. -/
theorem backward (h : Lineup c spare l) : Path (fun m => (c.monitor m).prev) c.oldest l.reverse none := by
  suffices hpart : ∀ before after, l = before ++ after → Path (fun m => (c.monitor m).prev) before.getLast? before.reverse none by
    rw [h.last]
    exact hpart l [] (List.append_nil l).symm
  -- From each member on, what precedes it is the list in front of it.
  intro before
  induction before using List.reverseRecOn with
  | nil => exact fun _ _ => rfl
  | append_singleton init p ih =>
      intro after hl
      rw [List.append_assoc] at hl
      subst hl
      rw [List.getLast?_concat, List.reverse_concat]
      refine ⟨rfl, ?_⟩
      have hprev : (c.monitor p).prev = init.getLast? := h.prev_eq
      simpa only [hprev] using ih _ rfl

/-! ### Monitors that come and go -/

theorem congr (h : Lineup c spare l) (hc : Stationed c c') : Lineup c' spare l := by
  refine ⟨h.toWatches.stationed hc, ?_, ?_, fun m => ?_, fun m => ?_, fun m hm => ?_, ?_, ?_⟩
  · rw [hc.newest]
    exact h.path.congr fun m _ => hc.next m
  · rw [hc.oldest, h.last]
  · rw [hc.installed, h.mem]
  · rw [hc.freeMonitors, hc.size, hc.installed, h.free]
  · rw [hc.size, hc.installed]
    exact h.idle m hm
  · rw [hc.size, hc.settings, h.pool]
  · rw [hc.size]
    exact h.two_le

/-- A monitor that is released leaves the list. -/
theorem release (h : Lineup c none l) (hm : (c.monitor m).installed = true) : Lineup (c.release m) none (l.erase m) := by
  have hinst := installed_release h.toWatches hm
  have hother : ∀ n, n ≠ m → ((c.release m).monitor n).next =
      if (c.monitor m).prev = some n then (c.monitor m).next else (c.monitor n).next := fun n hn => by
    rw [monitor_release h.toWatches hm, if_neg hn]
    rfl
  have hnodup := h.nodup
  obtain ⟨before, after, rfl⟩ := List.append_of_mem ((h.mem m).mpr hm)
  have hprev := h.prev_eq
  have hnext := h.next_eq
  have herase : (before ++ m :: after).erase m = before ++ after := by
    rw [List.erase_append_right, List.erase_cons_head]
    exact fun hmem => (List.nodup_append.mp hnodup).2.2 m hmem m List.mem_cons_self rfl
  refine ⟨h.toWatches.release hm, ?_, ?_, fun n => ?_, fun n => ?_, by simp, ?_, ?_⟩
  · rw [herase, newest_release]
    rcases List.eq_nil_or_concat before with rfl | ⟨init, p, rfl⟩
    · rw [hprev]
      refine h.path.skip_head fun n hn => ?_
      rw [hother n hn, hprev, if_neg (by simp)]
    · simp only [List.concat_eq_append, List.append_assoc, List.singleton_append, List.getLast?_concat] at hprev h ⊢
      rw [hprev, if_neg (by simp)]
      refine h.path.bypass (fun n hn hnm => ?_) ?_
      · rw [hother n hnm, hprev, if_neg fun hp => hn (Option.some.inj hp).symm]
      · rw [hother p fun hp => h.toWatches.prev_ne m (hp ▸ hprev), hprev, if_pos rfl]
  · rw [herase, oldest_release, hnext, hprev, h.last]
    cases after with
    | nil => simp
    | cons a rest => simp [List.getLast?_append, List.getLast?_cons_cons]
  · rw [hnodup.mem_erase_iff, hinst, h.mem]
  · have hdead : ((c.release m).monitor n).installed = false ↔ n = m ∨ (c.monitor n).installed = false := by
      rw [← Bool.not_eq_true, hinst]
      simp only [ne_eq, not_and_or, not_not, Bool.not_eq_true]
    rw [freeMonitors_release, size_monitors_release, List.mem_cons, h.free, hdead]
    constructor
    · rintro (rfl | ⟨hlt, hidle, -⟩)
      · exact ⟨lt_size_of_installed hm, .inl rfl, by simp⟩
      · exact ⟨hlt, .inr hidle, by simp⟩
    · rintro ⟨hlt, rfl | hidle, -⟩
      · exact .inl rfl
      · exact .inr ⟨hlt, hidle, by simp⟩
  · rw [size_monitors_release, (PagesApart.release c m).settings, h.pool]
  · rw [size_monitors_release]
    exact h.two_le

/-- A free monitor is taken, to be put on a page. -/
theorem take (h : Lineup c none l) {rest : List MonitorId} (hfree : c.freeMonitors = m :: rest) :
    Lineup { c with freeMonitors := rest } (some m) l := by
  have hnodup := h.free_nodup
  rw [hfree, List.nodup_cons] at hnodup
  have hmem : ∀ n, n ∈ c.freeMonitors ↔ n = m ∨ n ∈ rest := fun n => by rw [hfree, List.mem_cons]
  obtain ⟨hlt, hidle, -⟩ := (h.free m).mp ((hmem m).mpr (.inl rfl))
  have hrest : ∀ n ∈ rest, n ∈ c.freeMonitors := fun n hn => (hmem n).mpr (.inr hn)
  refine ⟨⟨h.byPage, h.page_lt, hnodup.2, fun n hn => h.free_lt n (hrest n hn), fun n hn => h.free_idle n (hrest n hn), h.prev_iff,
    h.prev_newer, h.aged, h.newest, h.oldest⟩, h.path, h.last, h.mem, fun n => ?_, fun n hn => ?_, h.pool, h.two_le⟩
  · constructor
    · intro hn
      obtain ⟨hnlt, hnidle, -⟩ := (h.free n).mp (hrest n hn)
      exact ⟨hnlt, hnidle, fun hmn => hnodup.1 (Option.some.inj hmn ▸ hn)⟩
    · rintro ⟨hnlt, hnidle, hne⟩
      rcases (hmem n).mp ((h.free n).mpr ⟨hnlt, hnidle, by simp⟩) with rfl | hn
      · exact absurd rfl hne
      · exact hn
  · obtain rfl := Option.some.inj hn
    exact ⟨hlt, hidle⟩

/-- A monitor that is put on a page comes first. -/
theorem watch (h : Lineup c (some m) l) (hpage : c.monitorOf page = none) (hlt : page.toNat < 2 ^ 20) :
    Lineup (c.watch m page flags code32) none (m :: l) := by
  obtain ⟨hm, hidle⟩ := h.idle m rfl
  have hspare : Spare c m := ⟨hm, hidle, fun hmem => ((h.free m).mp hmem).2.2 rfl⟩
  obtain ⟨hnewest, holdest, -, hfree⟩ := lists_watch c m page flags code32
  have hself : (c.watch m page flags code32).monitor m = _ := monitor_watch_self h.toWatches hspare
  have hother : ∀ n, n ≠ m → (c.watch m page flags code32).monitor n = _ := fun n hn => monitor_watch_ne h.toWatches hspare hn
  have hmem : ∀ n ∈ l, n ≠ m := by
    rintro n hn rfl
    exact absurd (hidle.symm.trans ((h.mem n).mp hn)) (by simp)
  have hinst : ∀ n, ((c.watch m page flags code32).monitor n).installed = true ↔ n = m ∨ (c.monitor n).installed = true := by
    intro n
    by_cases hn : n = m
    · rw [hn, hself]
      simp [Monitor.fresh]
    · rw [hother n hn]
      simp [hn]
  have hapart := PagesApart.watch c m page flags code32
  refine ⟨h.toWatches.watch hspare hpage hlt, ⟨hnewest, ?_⟩, ?_, fun n => ?_, fun n => ?_, by simp, ?_, ?_⟩
  · change Path _ ((c.watch m page flags code32).monitor m).next l none
    rw [hself]
    exact h.path.congr fun n hn => by rw [hother n (hmem n hn)]
  · rw [holdest, h.last]
    cases l with
    | nil => rw [if_pos (Path.nil_iff.mp h.path), List.getLast?_singleton]
    | cons a rest => rw [if_neg (by simp [h.path.1]), List.getLast?_cons_cons]
  · rw [List.mem_cons, hinst, h.mem]
  · rw [hfree, h.free, hapart.size, ← Bool.not_eq_true, ← Bool.not_eq_true, hinst]
    simp only [ne_eq, Option.some.injEq, not_or, reduceCtorEq, not_false_eq_true, and_true, eq_comm]
    tauto
  · rw [hapart.size, hapart.settings, h.pool]
  · rw [hapart.size]
    exact h.two_le

/-! ### Clearing a page -/

/-- Clearing a page takes its monitor off the list. The others watch what they watched before. -/
theorem clearRelease (h : Lineup c none l) (hm : (c.monitor m).installed = true) :
    Lineup (c.clearRelease m) none (l.erase m) ∧ (c.clearRelease m).stats.installed = c.stats.installed ∧
    (c.clearRelease m).freeMonitors = m :: c.freeMonitors ∧
    ∀ n, ((c.clearRelease m).monitor n).station = (c.monitor n).station := by
  obtain ⟨d, hquiet, heq⟩ := exists_clearRelease_eq c m
  rw [heq]
  have hd := h.congr hquiet.toStationed
  have hmd := (hquiet.installed m).trans hm
  refine ⟨hd.release hmd, by rw [stats_release]; exact hquiet.installs, ?_, fun n => ?_⟩
  · rw [freeMonitors_release, hquiet.freeMonitors]
  · rw [station_release hd.toWatches hmd, hquiet.station]

/-- A page that has a monitor after another page was cleared had it before. -/
theorem monitorOf_clearRelease (h : Lineup c none l) (hm : (c.monitor m).installed = true)
    (hn : (c.clearRelease m).monitorOf page = some n) : c.monitorOf page = some n ∧ n ≠ m := by
  obtain ⟨hcleared, -, -, hstation⟩ := h.clearRelease hm
  obtain ⟨hinst, hpage⟩ := (hcleared.byPage page n).mp hn
  obtain ⟨hne, hmem⟩ := h.nodup.mem_erase_iff.mp ((hcleared.mem n).mpr hinst)
  exact ⟨(h.byPage page n).mpr ⟨(h.mem n).mp hmem, (congrArg Prod.fst (hstation n)).symm.trans hpage⟩, hne⟩

/-! ### Taking a monitor -/

/-- The monitor to recycle is the last one of the list that is not under protection. -/
theorem victim_eq (h : Lineup c spare l) (keep : Option MonitorId) :
    c.victim keep = l.reverse.find? fun m => decide (keep ≠ some m) := by
  unfold victim
  rcases List.eq_nil_or_concat l with rfl | ⟨init, m, rfl⟩
  · rw [h.last]
    rfl
  · rw [List.concat_eq_append] at h ⊢
    have hprev : (c.monitor m).prev = init.getLast? := h.prev_eq
    rw [h.last, List.getLast?_concat, List.reverse_concat]
    dsimp only
    by_cases hkeep : keep = some m
    · -- The others are not under protection, so that the first one found is the one before.
      have hothers : ∀ n ∈ init.reverse, decide (keep ≠ some n) = true := by
        intro n hn
        rw [decide_eq_true_eq, hkeep, ne_eq, Option.some.injEq]
        rintro rfl
        exact (List.nodup_append.mp h.nodup).2.2 m (List.mem_reverse.mp hn) m List.mem_cons_self rfl
      rw [if_pos hkeep, hprev, List.find?_cons_of_neg (by simp [hkeep]), ← List.head?_reverse]
      cases hinit : init.reverse with
      | nil => rfl
      | cons n rest => exact (List.find?_cons_of_pos (p := fun m => decide (keep ≠ some m)) (hothers n (hinit ▸ List.mem_cons_self))).symm
    · rw [if_neg hkeep, List.find?_cons_of_pos (by simpa using hkeep)]

/-- If no monitor is free, all are on the list. -/
theorem size_le_length (h : Lineup c none l) (hfull : c.freeMonitors = []) : c.monitors.size ≤ l.length := by
  have hrange : List.range c.monitors.size ⊆ l := by
    intro m hm
    rw [h.mem]
    by_contra hinst
    have hfree := (h.free m).mpr ⟨List.mem_range.mp hm, by simpa using hinst, by simp⟩
    rw [hfull] at hfree
    cases hfree
  have hlength := (List.nodup_range.subperm hrange).length_le
  rwa [List.length_range] at hlength

/-- Of two monitors one is not under protection. -/
theorem exists_victim (h : Lineup c none l) (hfull : c.freeMonitors = []) (keep : Option MonitorId) :
    ∃ v, c.victim keep = some v := by
  have hlength := h.two_le.trans (h.size_le_length hfull)
  have hnodup := h.nodup
  rw [h.victim_eq, ← Option.isSome_iff_exists, List.find?_isSome]
  rcases l with _ | ⟨a, _ | ⟨b, rest⟩⟩
  · simp at hlength
  · simp at hlength
  · by_cases hkeep : keep = some a
    · refine ⟨b, by simp, ?_⟩
      rw [decide_eq_true_eq, hkeep, ne_eq, Option.some.injEq]
      rintro rfl
      simp at hnodup
    · exact ⟨a, by simp, by simpa using hkeep⟩

/-- If no monitor is free, the one that was put on its page before all others is recycled, other than one under
protection. -/
theorem takeMonitor_full (h : Lineup c none l) (hfull : c.freeMonitors = []) (keep : Option MonitorId) :
    ∃ v, c.victim keep = some v ∧
      c.takeMonitor keep = .ok (v, some (c.monitor v).page, { c.clearRelease v with freeMonitors := [] }) := by
  obtain ⟨v, hv⟩ := h.exists_victim hfull keep
  obtain ⟨-, -, hfree, -⟩ := h.clearRelease (victim_spec h.toWatches hv).1
  refine ⟨v, hv, ?_⟩
  unfold Cache.takeMonitor
  rw [hfull] at hfree ⊢
  dsimp only
  rw [hv]
  dsimp only
  rw [hfree]

/-- A monitor can always be taken. What is left of the list keeps its order, and a monitor under protection is left. -/
theorem takeMonitor (h : Lineup c none l) (keep : Option MonitorId) :
    ∃ m recycled c' l', c.takeMonitor keep = .ok (m, recycled, c') ∧ Lineup c' (some m) l' ∧ l'.Sublist l ∧
      (∀ k ∈ l, keep = some k → k ∈ l') ∧ c'.stats.installed = c.stats.installed ∧
      ∀ page, c.monitorOf page = none → c'.monitorOf page = none := by
  cases hfree : c.freeMonitors with
  | cons m rest =>
      refine ⟨m, none, _, l, ?_, h.take hfree, .refl l, fun _ hk _ => hk, rfl, fun _ hpage => hpage⟩
      unfold Cache.takeMonitor
      rw [hfree]
  | nil =>
      obtain ⟨v, hv, htake⟩ := h.takeMonitor_full hfree keep
      obtain ⟨hinst, hkeep⟩ := victim_spec h.toWatches hv
      obtain ⟨hcleared, hinstalls, hfreed, -⟩ := h.clearRelease hinst
      rw [hfree] at hfreed
      have hkept : ∀ k ∈ l, keep = some k → k ∈ l.erase v := fun k hk hkk =>
        h.nodup.mem_erase_iff.mpr ⟨fun hkv => hkeep (hkv ▸ hkk), hk⟩
      refine ⟨v, _, _, l.erase v, htake, hcleared.take hfreed, List.erase_sublist, hkept, hinstalls, fun page hpage => ?_⟩
      cases hn : (c.clearRelease v).monitorOf page with
      | none => exact hn
      | some n => exact absurd (hpage.symm.trans (h.monitorOf_clearRelease hinst hn).1) (by simp)

/-- The list after the search for the monitor of a page: at most one monitor comes, in front of the others, and it is the
one that was looked for. Those of the others that are left keep their order, and a monitor under protection is left. -/
structure Turned (c : Cache) (l : List MonitorId) (kept : MonitorId → Prop) (r : Except PageFault (Option MonitorId)) (c' : Cache)
    (l' : List MonitorId) : Prop where
  sublist : l'.Sublist l
  kept : ∀ k ∈ l, kept k → k ∈ l'
  now : Lineup c' none l' ∧ c'.stats.installed = c.stats.installed ∨
    ∃ m, r = .ok (some m) ∧ Lineup c' none (m :: l') ∧ c'.stats.installed = c.stats.installed + 1

theorem turned_refl (h : Lineup c none l) (kept : MonitorId → Prop) (r : Except PageFault (Option MonitorId)) :
    Turned c l kept r c l :=
  ⟨.refl l, fun _ hk _ => hk, .inl ⟨h, rfl⟩⟩

/-- Putting a monitor on a page that has none. -/
theorem install {mem mem' : Memory} {r : Except PageFault (Option MonitorId)} (h : Lineup c none l)
    (hpage : c.monitorOf page = none) (hlt : page.toNat < 2 ^ 20)
    (hr : codePage.install code32 keep page mem c = .ok (r, mem', c')) : ∃ l', Turned c l (keep = some ·) r c' l' := by
  unfold codePage.install at hr
  dsimp only at hr
  split at hr
  · cases hr
    exact ⟨l, turned_refl h _ _⟩
  · obtain ⟨m, recycled, d, l', htake, hd, hsub, hkept, hinstalls, hnone⟩ := h.takeMonitor keep
    rw [htake] at hr
    cases hr
    exact ⟨l', hsub, hkept, .inr ⟨m, rfl, hd.watch (hnone page hpage) hlt, by rw [stats_watch, ← hinstalls]⟩⟩

/-- Looking for the monitor of a page. -/
theorem codePage {mem mem' : Memory} {linear : UInt32} {r : Except PageFault (Option MonitorId)} (h : Lineup c none l)
    (hr : c.codePage mem linear code32 keep = .ok (r, mem', c')) :
    ∃ l', Turned c l (fun k => keep = some k ∧ (c.monitor k).code32 = code32) r c' l' := by
  unfold Cache.codePage at hr
  split at hr
  · cases hr
    exact ⟨l, turned_refl h _ _⟩
  · rename_i paddr _
    dsimp only at hr
    split at hr
    · rename_i m hm
      split at hr
      · cases hr
        exact ⟨l, turned_refl h _ _⟩
      · rename_i hcode
        have hinst := ((h.byPage _ m).mp hm).1
        obtain ⟨hcleared, hinstalls, -, -⟩ := h.clearRelease hinst
        have hnone : (c.clearRelease m).monitorOf (pageOf paddr) = none := by
          cases hn : (c.clearRelease m).monitorOf (pageOf paddr) with
          | none => rfl
          | some n =>
              obtain ⟨hn', hne⟩ := h.monitorOf_clearRelease hinst hn
              exact absurd (Option.some.inj (hn'.symm.trans hm)) hne
        obtain ⟨l', hsub, hkept, hnow⟩ := hcleared.install hnone (toNat_pageOf_lt paddr) hr
        refine ⟨l', hsub.trans List.erase_sublist, fun k hk hkk => hkept k (h.nodup.mem_erase_iff.mpr ⟨?_, hk⟩) hkk.1, hinstalls ▸ hnow⟩
        rintro rfl
        exact hcode hkk.2
    · rename_i hnone
      obtain ⟨l', hsub, hkept, hnow⟩ := h.install hnone (toNat_pageOf_lt paddr) hr
      exact ⟨l', hsub, fun k hk hkk => hkept k hk hkk.1, hnow⟩

end Lineup

theorem arrivals_eq_nil (h : c'.stats.installed = c.stats.installed) : c.arrivals c' = [] :=
  if_neg (by omega)

/-- No monitor comes. Those that are left keep their order. -/
structure Dwindles (c c' : Cache) : Prop where
  installs : c'.stats.installed = c.stats.installed
  lineup : ∀ l, Lineup c none l → ∃ l', l'.Sublist l ∧ Lineup c' none l'

namespace Dwindles

theorem of_stationed (h : Stationed c c') : Dwindles c c' :=
  ⟨h.installs, fun l hl => ⟨l, .refl l, hl.congr h⟩⟩

theorem refl (c : Cache) : Dwindles c c :=
  .of_stationed (Quiet.refl c).toStationed

theorem trans {c'' : Cache} (h : Dwindles c c') (h' : Dwindles c' c'') : Dwindles c c'' := by
  refine ⟨h'.installs.trans h.installs, fun l hl => ?_⟩
  obtain ⟨l', hsub, hl'⟩ := h.lineup l hl
  obtain ⟨l'', hsub', hl''⟩ := h'.lineup l' hl'
  exact ⟨l'', hsub'.trans hsub, hl''⟩

end Dwindles

/-- At most one monitor comes, in front of the others. Those of the others that are left keep their order. -/
def Turns (c c' : Cache) : Prop :=
  ∀ l, Lineup c none l → ∃ l', l'.Sublist l ∧ Lineup c' none (c.arrivals c' ++ l')

theorem Dwindles.turns (h : Dwindles c c') : Turns c c' := by
  intro l hl
  rw [arrivals_eq_nil h.installs]
  exact h.lineup l hl

namespace Turns

variable {d : Cache} {mem mem' : Memory} {linear : UInt32} {r : Except PageFault (Option MonitorId)}

theorem after_quiet (h : Turns d c') (hq : Quiet c d) : Turns c c' := by
  intro l hl
  rw [arrivals, ← hq.installs]
  exact h l (hl.congr hq.toStationed)

theorem before_quiet (h : Turns c d) (hq : Quiet d c') : Turns c c' := by
  intro l hl
  obtain ⟨l', hsub, hl'⟩ := h l hl
  refine ⟨l', hsub, ?_⟩
  rw [arrivals, hq.installs, hq.newest]
  exact hl'.congr hq.toStationed

theorem codePage (h : c.codePage mem linear code32 keep = .ok (r, mem', c')) : Turns c c' := by
  intro l hl
  obtain ⟨l', hsub, -, ⟨hl', hinstalls⟩ | ⟨m, -, hl', hinstalls⟩⟩ := hl.codePage h
  · rw [arrivals_eq_nil hinstalls]
    exact ⟨l', hsub, hl'⟩
  · rw [arrivals, if_pos (by omega), hl'.path.1]
    exact ⟨l', hsub, hl'⟩

/-- A page was looked for, got no monitor, and then others lost theirs. -/
theorem codePage_dwindles (h : c.codePage mem linear code32 keep = .ok (r, mem', d)) (hr : ∀ m, r ≠ .ok (some m))
    (hd : Dwindles d c') : Turns c c' := by
  intro l hl
  obtain ⟨l', hsub, -, ⟨hl', hinstalls⟩ | ⟨m, hm, -⟩⟩ := hl.codePage h
  · obtain ⟨l'', hsub', hl''⟩ := hd.lineup l' hl'
    rw [arrivals_eq_nil (hd.installs.trans hinstalls)]
    exact ⟨l'', hsub'.trans hsub, hl''⟩
  · exact absurd hm (hr m)

end Turns

/-- Looking for the monitor of a page always gives an answer. -/
theorem Lineup.exists_codePage (h : Lineup c none l) (mem : Memory) (linear : UInt32) (code32 : Bool) (keep : Option MonitorId) :
    ∃ out, c.codePage mem linear code32 keep = .ok out := by
  have hinstall : ∀ {d : Cache} {l : List MonitorId} (mem : Memory) (page : UInt32), Lineup d none l →
      ∃ out, codePage.install code32 keep page mem d = .ok out := by
    intro d l mem page hl
    obtain ⟨m, recycled, d', l', htake, -⟩ := hl.takeMonitor keep
    unfold codePage.install
    dsimp only
    rw [htake]
    split <;> exact ⟨_, rfl⟩
  unfold Cache.codePage
  split
  · exact ⟨_, rfl⟩
  · dsimp only
    split
    · rename_i m hm
      split
      · exact ⟨_, rfl⟩
      · exact hinstall _ _ (h.clearRelease ((h.byPage _ m).mp hm).1).1
    · exact hinstall _ _ h

/-! ### Stores -/

/-- No monitor comes, and no link is made. -/
structure Withdraws (c c' : Cache) : Prop extends Fades c c', Dwindles c c'

namespace Withdraws

theorem refl (c : Cache) : Withdraws c c :=
  ⟨.refl c, .refl c⟩

theorem trans {c'' : Cache} (h : Withdraws c c') (h' : Withdraws c' c'') : Withdraws c c'' :=
  ⟨h.toFades.trans h'.toFades, h.toDwindles.trans h'.toDwindles⟩

theorem of_clears (h : Clears c c') : Withdraws c c' :=
  ⟨h.fades, .of_stationed h.toStationed⟩

theorem release (hm : (c.monitor m).installed = true) : Withdraws c (c.release m) :=
  ⟨(PagesApart.release c m).fades, by rw [stats_release], fun l hl => ⟨l.erase m, List.erase_sublist, hl.release hm⟩⟩

theorem noteStore (hm : (c.monitor m).installed = true) (offset len : Nat) (running : Option BlockId) :
    Withdraws c (c.noteStore m offset len running).2 := by
  unfold Cache.noteStore
  split
  · refine of_clears (.trans (.modifyMonitor c m ?_) (.invalidate _ m offset (offset + len - 1) running))
    exact fun _ => rfl
  · split
    · have hworn : Clears c (c.modifyMonitor m fun mon => { mon with patience := mon.patience - 1 }) :=
        .modifyMonitor c m fun _ => rfl
      dsimp only
      split
      · exact (of_clears hworn).trans (release ((hworn.installed m).trans hm))
      · exact of_clears hworn
    · exact refl c

theorem write (h : Watches c) (mem : Memory) (paddr : UInt32) (w : Width) (value : UInt32) :
    Withdraws c (c.write mem paddr w value).2 := by
  unfold Cache.write
  split
  · exact refl c
  · rename_i m hm
    split
    · exact refl c
    · split
      · exact refl c
      · exact noteStore ((h.byPage _ m).mp hm).1 (pageOffset paddr) w.bytes none

theorem writeChecked (h : Watches c) (mem : Memory) (paddr : UInt32) (w : Width) (value : UInt32) (running : Option BlockId) :
    Withdraws c (c.writeChecked mem paddr w value running).2.2 := by
  unfold Cache.writeChecked
  split
  · exact refl c
  · rename_i m hm
    split
    · exact refl c
    · split
      · exact refl c
      · have hnoted := noteStore ((h.byPage _ m).mp hm).1 (pageOffset paddr) w.bytes running
        dsimp only
        split <;> exact hnoted

end Withdraws

/-- What stores do to memory and cache, with what they leave alone. Memory is told of every monitor that is released. -/
structure Saved (mem : Memory) (c : Cache) (mem' : Memory) (c' : Cache) : Prop extends Stored mem c mem' c', Withdraws c c' where
  announced : ∃ pages, Announced mem c pages mem' c'

namespace Saved

variable {mem mem' mem'' : Memory} {c'' : Cache} {paddr value : UInt32} {w : Width}

theorem refl (h : Sound c) (mem : Memory) : Saved mem c mem c :=
  ⟨.refl h mem, .refl c, [], .refl⟩

theorem trans (h : Saved mem c mem' c') (h' : Saved mem' c' mem'' c'') : Saved mem c mem'' c'' := by
  obtain ⟨pages, hpages⟩ := h.announced
  obtain ⟨pages', hpages'⟩ := h'.announced
  exact ⟨h.toStored.trans h'.toStored, h.toWithdraws.trans h'.toWithdraws, _, hpages.trans hpages'⟩

theorem write (h : Sound c) (hfit : pageOffset paddr + w.bytes ≤ pageSize) :
    Saved mem c (c.write mem paddr w value).1 (c.write mem paddr w value).2 :=
  ⟨write_spec h hfit, .write h.watches mem paddr w value, Announced.write h.watches mem paddr w value⟩

theorem writeChecked (h : Sound c) (hfit : pageOffset paddr + w.bytes ≤ pageSize) (running : Option BlockId) :
    Saved mem c (c.writeChecked mem paddr w value running).2.1 (c.writeChecked mem paddr w value running).2.2 :=
  ⟨(writeChecked_spec h hfit running).1, .writeChecked h.watches mem paddr w value running,
    Announced.writeChecked h.watches mem paddr w value running⟩

end Saved

end Cache

end Recompiler
