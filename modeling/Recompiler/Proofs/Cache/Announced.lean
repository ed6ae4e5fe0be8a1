import Recompiler.Proofs.Cache.Frame

/-! Monitors that are released. A page loses its monitor when stores outside code have worn out its patience, when the
monitor is needed for another page, and when the page is to be watched for code of the other size. Each time memory is told
the page, right then and once, whoever has to see to it. -/

namespace Recompiler.Cache

variable {c c' c'' d : Cache} {mem mem' mem'' : Memory} {m : MonitorId} {pages pages' : List UInt32} {keep : Option MonitorId}
  {page : UInt32} {code32 : Bool}

/-- The list of installed monitors is the same where monitors stay where they are. -/
theorem Watches.stationed (h : Watches c) (hc : Stationed c c') : Watches c' :=
  h.of_fields hc.monitorOf hc.freeMonitors hc.newest hc.oldest hc.size hc.installed
    (fun m => congrArg Prod.fst (hc.station m)) hc.prev hc.next

/-- No monitor is released: those that watch a page stay on it. -/
structure Remains (c c' : Cache) : Prop where
  releases : c'.stats.released = c.stats.released
  post : ∀ m, (c.monitor m).installed = true →
    (c'.monitor m).installed = true ∧ (c'.monitor m).station = (c.monitor m).station

/-- On the way from one state of memory and cache to another the monitors of `pages` were released, one after the other,
and each time memory was told the page, and nothing else. -/
inductive Announced (mem : Memory) (c : Cache) : List UInt32 → Memory → Cache → Prop where
  | refl : Announced mem c [] mem c
  /-- No monitor is released, and memory is told nothing. -/
  | remain {pages : List UInt32} {mem₁ mem' : Memory} {c₁ c' : Cache} (h : Announced mem c pages mem₁ c₁)
      (hremains : Remains c₁ c') (htold : mem'.released = mem₁.released) : Announced mem c pages mem' c'
  /-- A monitor is released, and memory is told its page. -/
  | release {pages : List UInt32} {mem₁ mem' : Memory} {c₁ : Cache} {m : MonitorId} (h : Announced mem c pages mem₁ c₁)
      (hm : (c₁.monitor m).installed = true) (htold : mem'.released = mem₁.released.push (c₁.monitor m).page) :
      Announced mem c (pages ++ [(c₁.monitor m).page]) mem' (c₁.release m)

/-- A store tells memory nothing. -/
theorem released_write (mem : Memory) (paddr : UInt32) (w : Width) (value : UInt32) :
    (mem.write paddr w value).released = mem.released := by
  unfold Memory.write
  generalize w.split value = bytes
  induction bytes generalizing mem paddr with
  | nil => rfl
  | cons b rest ih => exact ih _ _

theorem Remains.of_stationed (h : Stationed c c') : Remains c c' :=
  ⟨h.releases, fun m hm => ⟨(h.installed m).trans hm, h.station m⟩⟩

/-- A spare monitor is put on a page. -/
theorem Remains.watch (h : Watches c) (hm : Spare c m) (page : UInt32) (flags : UInt8) (code32 : Bool) :
    Remains c (c.watch m page flags code32) := by
  refine ⟨by rw [stats_watch], fun n hn => ?_⟩
  have hne : n ≠ m := by
    rintro rfl
    exact absurd (hm.idle.symm.trans hn) (by simp)
  rw [monitor_watch_ne h hm hne]
  exact ⟨hn, rfl⟩

namespace Announced

theorem of_remains (h : Remains c c') (htold : mem'.released = mem.released) : Announced mem c [] mem' c' :=
  refl.remain h htold

theorem of_stationed (h : Stationed c c') (htold : mem'.released = mem.released) : Announced mem c [] mem' c' :=
  of_remains (.of_stationed h) htold

/-- Memory may change otherwise. -/
theorem retold (h : Announced mem c pages mem' c') (htold : mem''.released = mem'.released) :
    Announced mem c pages mem'' c' :=
  h.remain (.of_stationed (Quiet.refl c').toStationed) htold

theorem trans (h : Announced mem c pages mem' c') (h' : Announced mem' c' pages' mem'' c'') :
    Announced mem c (pages ++ pages') mem'' c'' := by
  induction h' with
  | refl =>
      rw [List.append_nil]
      exact h
  | remain _ hremains htold ih => exact ih.remain hremains htold
  | release _ hm htold ih =>
      rw [← List.append_assoc]
      exact ih.release hm htold

/-- Memory was told the pages, in order. -/
theorem told (h : Announced mem c pages mem' c') : mem'.released.toList = mem.released.toList ++ pages := by
  induction h with
  | refl => rw [List.append_nil]
  | remain _ _ htold ih => rw [htold, ih]
  | release _ _ htold ih => rw [htold, Array.toList_push, ih, List.append_assoc]

/-- The cache counted as many releases. -/
theorem count (h : Announced mem c pages mem' c') : c'.stats.released = c.stats.released + pages.length := by
  induction h with
  | refl => rfl
  | remain _ hremains _ ih => rw [hremains.releases, ih]
  | release _ _ _ ih => rw [stats_release, ih, List.length_append, List.length_singleton, Nat.add_assoc]

/-! ### Looking for the monitor of a page -/

/-- A page is cleared, and memory is told. -/
theorem clearRelease (hm : (c.monitor m).installed = true) :
    Announced mem c [(c.monitor m).page] (mem.release (c.monitor m).page) (c.clearRelease m) := by
  obtain ⟨d, hclears, heq⟩ := exists_clearRelease_eq c m
  have hpage : (d.monitor m).page = (c.monitor m).page := congrArg Prod.fst (hclears.station m)
  have hcleared : Announced mem c [] mem d := of_stationed hclears.toStationed rfl
  rw [heq, ← hpage]
  exact hcleared.release ((hclears.installed m).trans hm) rfl

theorem watches_clearRelease (h : Watches c) (hm : (c.monitor m).installed = true) : Watches (c.clearRelease m) := by
  obtain ⟨d, hclears, heq⟩ := exists_clearRelease_eq c m
  rw [heq]
  exact (h.stationed hclears.toStationed).release ((hclears.installed m).trans hm)

/-- Leaving a free monitor out of the list of free ones. -/
theorem take (rest : List MonitorId) : Announced mem c [] mem { c with freeMonitors := rest } :=
  of_remains ⟨rfl, fun _ hm => ⟨hm, rfl⟩⟩ rfl

/-- If a monitor is recycled, memory is told the page that lost it. -/
theorem takeMonitor (h : Watches c) (mem : Memory) {recycled : Option UInt32}
    (ht : c.takeMonitor keep = .ok (m, recycled, c')) :
    (∃ pages, Announced mem c pages (recycled.elim mem mem.release) c') ∧ Watches c' ∧ Spare c' m := by
  unfold Cache.takeMonitor at ht
  split at ht
  · rename_i hfree
    cases ht
    exact ⟨⟨[], take _⟩, h.take hfree⟩
  · split at ht
    · cases ht
    · rename_i v hv
      have hinst := (victim_spec h hv).1
      dsimp only at ht
      split at ht
      · rename_i hfree
        cases ht
        exact ⟨⟨_, (clearRelease hinst).trans (take _)⟩, (watches_clearRelease h hinst).take hfree⟩
      · cases ht

theorem install (h : Watches c) {r : Except PageFault (Option MonitorId)}
    (hr : codePage.install code32 keep page mem c = .ok (r, mem', c')) : ∃ pages, Announced mem c pages mem' c' := by
  unfold codePage.install at hr
  dsimp only at hr
  split at hr
  · cases hr
    exact ⟨[], refl⟩
  · split at hr
    · cases hr
    · rename_i recycled _ htake
      cases hr
      obtain ⟨⟨pages, htaken⟩, hwatches, hspare⟩ := takeMonitor h mem htake
      refine ⟨pages, htaken.remain (.watch hwatches hspare _ _ _) ?_⟩
      cases recycled <;> rfl

theorem codePage (h : Watches c) {linear : UInt32} {r : Except PageFault (Option MonitorId)}
    (hr : c.codePage mem linear code32 keep = .ok (r, mem', c')) : ∃ pages, Announced mem c pages mem' c' := by
  unfold Cache.codePage at hr
  split at hr
  · cases hr
    exact ⟨[], refl⟩
  · dsimp only at hr
    split at hr
    · rename_i hm
      obtain ⟨hinst, hpage⟩ := (h.byPage _ _).mp hm
      split at hr
      · cases hr
        exact ⟨[], refl⟩
      · rw [← hpage] at hr
        obtain ⟨pages, hinstall⟩ := install (watches_clearRelease h hinst) hr
        exact ⟨_, (clearRelease hinst).trans hinstall⟩
    · exact install h hr

/-! ### Stores -/

/-- A store leaves the monitor of its page where it is, unless the page has run out of patience. Then the running block was
not hit. -/
theorem noteStore_cases (c : Cache) (m : MonitorId) (offset len : Nat) (running : Option BlockId) :
    Stationed c (c.noteStore m offset len running).2 ∨
      (c.noteStore m offset len running).1 = false ∧ ∃ d, Stationed c d ∧ (c.noteStore m offset len running).2 = d.release m := by
  unfold Cache.noteStore
  split
  · refine .inl (Quiet.toStationed (Clears.toQuiet (.trans (.modifyMonitor c m ?_)
      (.invalidate _ m offset (offset + len - 1) running))))
    exact fun _ => rfl
  · split
    · have hworn : Clears c (c.modifyMonitor m fun mon => { mon with patience := mon.patience - 1 }) :=
        .modifyMonitor c m fun _ => rfl
      dsimp only
      split
      · exact .inr ⟨rfl, _, hworn.toStationed, rfl⟩
      · exact .inl hworn.toStationed
    · exact .inl (Clears.refl c).toStationed

/-- Whoever makes the store asks whether the page still has its monitor, and tells memory if not. -/
theorem noteStore (h : Watches c) (mem : Memory) (hm : (c.monitor m).installed = true) (offset len : Nat)
    (running : Option BlockId) :
    ∃ pages, Announced mem c pages
      ((c.noteStore m offset len running).2.reportRelease m (c.monitor m).page mem) (c.noteStore m offset len running).2 := by
  rcases noteStore_cases c m offset len running with hstationed | ⟨-, d, hstationed, heq⟩
  · have hinst := (hstationed.installed m).trans hm
    refine ⟨[], of_stationed hstationed ?_⟩
    rw [reportRelease, if_pos hinst]
  · have hinst := (hstationed.installed m).trans hm
    have hpage : (d.monitor m).page = (c.monitor m).page := congrArg Prod.fst (hstationed.station m)
    have hgone : ((d.release m).monitor m).installed = false := by
      have hnot := mt (installed_release (h.stationed hstationed) hinst m).mp fun hself => hself.1 rfl
      simpa using hnot
    have hnoted : Announced mem c [] mem d := of_stationed hstationed rfl
    rw [heq]
    refine ⟨_, hnoted.release hinst ?_⟩
    rw [reportRelease, if_neg (by rw [hgone]; simp), hpage]
    rfl

theorem write (h : Watches c) (mem : Memory) (paddr : UInt32) (w : Width) (value : UInt32) :
    ∃ pages, Announced mem c pages (c.write mem paddr w value).1 (c.write mem paddr w value).2 := by
  have hstore : Announced mem c [] (mem.write paddr w value) c := refl.retold (released_write ..)
  unfold Cache.write
  split
  · unfold Memory.writeUnlessRom
    split
    · exact ⟨[], refl⟩
    · exact ⟨[], hstore⟩
  · rename_i m hm
    split
    · exact ⟨[], refl⟩
    · split
      · exact ⟨[], refl⟩
      · have hinst := ((h.byPage _ m).mp hm).1
        obtain ⟨pages, hnoted⟩ := noteStore h (mem.write paddr w value) hinst (pageOffset paddr) w.bytes none
        exact ⟨pages, hstore.trans hnoted⟩

theorem writeChecked (h : Watches c) (mem : Memory) (paddr : UInt32) (w : Width) (value : UInt32) (running : Option BlockId) :
    ∃ pages, Announced mem c pages (c.writeChecked mem paddr w value running).2.1 (c.writeChecked mem paddr w value running).2.2 := by
  unfold Cache.writeChecked
  split
  · unfold Memory.writeUnlessRom
    split
    · exact ⟨[], refl⟩
    · exact ⟨[], refl.retold (released_write ..)⟩
  · rename_i m hm
    split
    · exact ⟨[], refl⟩
    · split
      · exact ⟨[], refl⟩
      · have hinst := ((h.byPage _ m).mp hm).1
        dsimp only
        split
        · rename_i hhit
          -- A store that is given up as it hits the running block released nothing.
          rcases noteStore_cases c m (pageOffset paddr) w.bytes running with hstationed | ⟨hmiss, -⟩
          · exact ⟨[], of_stationed hstationed rfl⟩
          · exact absurd (hmiss.symm.trans hhit) (by simp)
        · obtain ⟨pages, hnoted⟩ := noteStore h mem hinst (pageOffset paddr) w.bytes running
          exact ⟨pages, hnoted.retold (released_write ..)⟩

end Announced

end Recompiler.Cache
